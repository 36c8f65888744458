import ComponentStream.Proofs.Session.Frozen
import ComponentStream.Proofs.Stream.Account
import ComponentStream.Proofs.Stream.Versions

/-!
# What is published

The tree changes record by record, and the host sees a copy of it that is renewed once for a chunk.  Main streams and
replies share the tree, and any of their records may be dropped or change nothing.  Even so, between two steps the copy
is that of the present tree, and so is what the host was shown last.

* `updates`, `Snapshot.Agrees`, `Snapshot.Precedes` — what the host was shown, and the order of it;
* `InSync` — a session of which all that can be seen has been shown;
* `Announced` — two sessions between which everything was shown as it came about;
* `Plain.takeRecords_eq` — records first, and then the tree at most once;
* `Act.Announces` — acts that show what they change, closed under sequencing;
* `Plain.announced_act`, `published_in_sync` — all moves but a reset do so, and the copy is up to date in every run.
-/

namespace ComponentStream.Session

open Protocol (Limits)
open ComponentStream.Stream (accepted accepted_cons processAll processAll_advances processRecord)
open ComponentStream.Tree (Reachable)

variable {α β : Type} {s s' s'' : Session} {tell : Teller} {listens : CallKind → Bool}

/-! ### Snapshots -/

/-- The snapshot that a call hands to the host. -/
def Call.update? : Call → Option Snapshot
  | .update snapshot => some snapshot
  | _ => none

/-- The snapshots that the host was shown, in order. -/
def updates (calls : List Call) : List Snapshot := calls.filterMap Call.update?

namespace Snapshot

/-- What there is to see before anything has happened. -/
def fresh : Snapshot := ⟨.idle, 0, 0, [], false, none⟩

/-- Two snapshots tell the same, the last fault apart. -/
structure Agrees (a b : Snapshot) : Prop where
  status : a.status = b.status
  generation : a.generation = b.generation
  version : a.version = b.version
  roots : a.roots = b.roots
  complete : a.complete = b.complete

/-- A snapshot may follow another one: generations never fall, nor do versions within a generation, and a version of a
generation has the same roots whenever it is shown. -/
structure Precedes (a b : Snapshot) : Prop where
  generation : a.generation ≤ b.generation
  version : a.generation = b.generation → a.version ≤ b.version
  roots : a.generation = b.generation → a.version = b.version → a.roots = b.roots

theorem Agrees.refl (a : Snapshot) : a.Agrees a := ⟨rfl, rfl, rfl, rfl, rfl⟩

theorem Agrees.trans {a b c : Snapshot} (h : a.Agrees b) (h' : b.Agrees c) : a.Agrees c :=
  ⟨h.status.trans h'.status, h.generation.trans h'.generation, h.version.trans h'.version, h.roots.trans h'.roots,
    h.complete.trans h'.complete⟩

namespace Precedes

variable {a b c : Snapshot}

theorem of_eq (hgen : a.generation = b.generation) (hversion : a.version = b.version) (hroots : a.roots = b.roots) :
    a.Precedes b :=
  ⟨Nat.le_of_eq hgen, fun _ => Nat.le_of_eq hversion, fun _ _ => hroots⟩

theorem trans (h : a.Precedes b) (h' : b.Precedes c) : a.Precedes c := by
  have hgen := h.generation
  have hgen' := h'.generation
  -- what begins and ends in one generation has never left it
  have hstays : a.generation = c.generation → a.generation = b.generation ∧ b.generation = c.generation := by omega
  refine ⟨Nat.le_trans hgen hgen', fun hac => ?_, fun hac hversion => ?_⟩
  · obtain ⟨hab, hbc⟩ := hstays hac
    exact Nat.le_trans (h.version hab) (h'.version hbc)
  · obtain ⟨hab, hbc⟩ := hstays hac
    have hle := h.version hab
    have hle' := h'.version hbc
    exact (h.roots hab (by omega)).trans (h'.roots hbc (by omega))

end Precedes

end Snapshot

/-! ### Session and host in step -/

/-- What a session shows to the host, the tree apart. -/
structure Shown where
  status : Status
  generation : Nat
  version : Nat
  roots : List Protocol.Node
  updates : List Snapshot

def shown (s : Session) : Shown := ⟨s.status, s.generation, s.version, s.roots, updates s.calls⟩

/-- The published copy is that of the tree. -/
structure Mirrored (s : Session) : Prop where
  reachable : s.intake.tree.Reachable
  version : s.version = s.intake.tree.version
  roots : s.intake.tree.roots = .ok s.roots

/-- The published copy is that of the tree, and the host has been shown it last, if it listens. -/
structure InSync (listens : CallKind → Bool) (s : Session) : Prop where
  mirrored : Mirrored s
  last : ∀ snapshot, (updates s.calls).getLast? = some snapshot → snapshot.Agrees s.snapshot
  /-- What has never been shown to a host that listens is as it was at first. -/
  unseen : listens .update = true → updates s.calls = [] → Snapshot.fresh.Agrees s.snapshot
  silent : listens .update = false → updates s.calls = []

/-- A session has become another one, and the host was shown everything in between in due order. -/
structure Announced (listens : CallKind → Bool) (s s' : Session) : Prop where
  inSync : InSync listens s'
  onward : s.snapshot.Precedes s'.snapshot
  handed : ∃ new, updates s'.calls = updates s.calls ++ new ∧ new.Pairwise Snapshot.Precedes ∧
    ∀ snapshot ∈ new, s.snapshot.Precedes snapshot ∧ snapshot.Precedes s'.snapshot

/-- Nothing is to be shown where nothing that can be seen has changed. -/
theorem Announced.of_shown (hs : InSync listens s) (hshown : s'.shown = s.shown)
    (htree : s'.intake.tree = s.intake.tree) : Announced listens s s' := by
  have hstatus : s'.status = s.status := congrArg Shown.status hshown
  have hgen : s'.generation = s.generation := congrArg Shown.generation hshown
  have hversion : s'.version = s.version := congrArg Shown.version hshown
  have hroots : s'.roots = s.roots := congrArg Shown.roots hshown
  have hupdates : updates s'.calls = updates s.calls := congrArg Shown.updates hshown
  have hagrees : s.snapshot.Agrees s'.snapshot :=
    ⟨hstatus.symm, hgen.symm, hversion.symm, hroots.symm, congrArg Tree.complete htree.symm⟩
  refine ⟨⟨⟨?_, ?_, ?_⟩, fun snapshot hlast => ?_, fun hl hnone => ?_, fun hdeaf => ?_⟩,
    .of_eq hgen.symm hversion.symm hroots.symm, [], by rw [hupdates, List.append_nil], .nil,
    fun _ hmem => absurd hmem List.not_mem_nil⟩
  · rw [htree]
    exact hs.mirrored.reachable
  · rw [hversion, htree]
    exact hs.mirrored.version
  · rw [hroots, htree]
    exact hs.mirrored.roots
  · rw [hupdates] at hlast
    exact (hs.last snapshot hlast).trans hagrees
  · rw [hupdates] at hnone
    exact (hs.unseen hl hnone).trans hagrees
  · rw [hupdates]
    exact hs.silent hdeaf

theorem Announced.refl (hs : InSync listens s) : Announced listens s s := .of_shown hs rfl rfl

theorem Announced.trans (h : Announced listens s s') (h' : Announced listens s' s'') : Announced listens s s'' := by
  obtain ⟨new, hnew, horder, hbounds⟩ := h.handed
  obtain ⟨new', hnew', horder', hbounds'⟩ := h'.handed
  refine ⟨h'.inSync, h.onward.trans h'.onward, new ++ new', ?_, ?_, fun snapshot hmem => ?_⟩
  · rw [hnew', hnew, List.append_assoc]
  · refine List.pairwise_append.mpr ⟨horder, horder', fun a ha b hb => ?_⟩
    exact (hbounds a ha).2.trans (hbounds' b hb).1
  · rcases List.mem_append.mp hmem with hmem | hmem
    · exact ⟨(hbounds snapshot hmem).1, (hbounds snapshot hmem).2.trans h'.onward⟩
    · exact ⟨h.onward.trans (hbounds' snapshot hmem).1, (hbounds' snapshot hmem).2⟩

/-! ### Telling the host -/

/-- Publishing shows the roots of the present tree. -/
theorem publish_eq (tell : Teller) (hreach : s.intake.tree.Reachable) :
    ∃ roots, s.intake.tree.roots = .ok roots ∧
      publish tell s = notify tell { s with roots := roots, version := s.intake.tree.version } := by
  obtain ⟨roots, hroots, _⟩ := hreach.sound.exists_roots_eq_ok
  refine ⟨roots, hroots, ?_⟩
  rw [publish, publishedRoots, hroots]

namespace Plain

variable (h : Plain listens tell)

include h

/-- What is no update leaves alone what is shown. -/
theorem keeps_shown {c : Call} (hc : c.update? = none) : (tell c).Keeps shown := by
  intro s
  rw [h]
  by_cases hl : listens c.kind = true
  · rw [if_pos hl]
    have hupdates : updates (s.calls ++ [c]) = updates s.calls := by
      rw [updates, List.filterMap_append, List.filterMap_cons_none hc, List.filterMap_nil, List.append_nil]
      rfl
    show (⟨s.status, s.generation, s.version, s.roots, updates (s.calls ++ [c])⟩ : Shown) = _
    rw [hupdates]
    rfl
  · rw [if_neg hl]

/-- A host that is shown the snapshot of a session has been shown all of it. -/
theorem inSync_notify (hs : Mirrored s) (hsilent : listens .update = false → updates s.calls = []) :
    InSync listens (notify tell s).1 := by
  rw [notify, h]
  by_cases hl : listens (Call.update s.snapshot).kind = true
  · rw [if_pos hl]
    have hupdates : updates (s.calls ++ [.update s.snapshot]) = updates s.calls ++ [s.snapshot] :=
      List.filterMap_append
    refine ⟨⟨hs.reachable, hs.version, hs.roots⟩, fun snapshot hlast => ?_, fun _ hnone => ?_, fun hdeaf => ?_⟩
    · have hshown : (updates s.calls ++ [s.snapshot]).getLast? = some snapshot := hupdates ▸ hlast
      rw [List.getLast?_concat] at hshown
      exact Option.some.inj hshown ▸ .refl _
    · exact absurd (hupdates.symm.trans hnone) (by simp)
    · exact absurd (hl.symm.trans hdeaf) (by simp)
  · rw [if_neg hl]
    have hnone : updates s.calls = [] := hsilent ((Bool.not_eq_true _).mp hl)
    refine ⟨hs, fun snapshot hlast => ?_, fun hlistens => absurd hlistens hl, hsilent⟩
    rw [hnone] at hlast
    exact absurd hlast (by simp)

/-- What has been made ready since, with nothing shown, is announced by showing it. -/
theorem announced_notify (hs : InSync listens s) (hs' : Mirrored s') (hupdates : updates s'.calls = updates s.calls)
    (honward : s.snapshot.Precedes s'.snapshot) : Announced listens s (notify tell s').1 := by
  have hsilent : listens .update = false → updates s'.calls = [] := fun hdeaf => hupdates.trans (hs.silent hdeaf)
  refine ⟨h.inSync_notify hs' hsilent, ?_, ?_⟩
  · rw [notify, h]
    split
    · exact honward
    · exact honward
  · rw [notify, h]
    split
    · refine ⟨[s'.snapshot], ?_, List.pairwise_singleton _ _, fun snapshot hmem => ?_⟩
      · show updates (s'.calls ++ [.update s'.snapshot]) = _
        rw [updates, List.filterMap_append]
        exact congrArg (· ++ [s'.snapshot]) hupdates
      · rw [List.mem_singleton.mp hmem]
        exact ⟨honward, .of_eq rfl rfl rfl⟩
    · exact ⟨[], by rw [hupdates, List.append_nil], .nil, fun _ hmem => absurd hmem List.not_mem_nil⟩

theorem inSync_publish (hreach : s.intake.tree.Reachable) (hsilent : listens .update = false → updates s.calls = []) :
    InSync listens (publish tell s).1 := by
  obtain ⟨roots, hroots, heq⟩ := publish_eq tell hreach
  rw [heq]
  exact h.inSync_notify ⟨hreach, rfl, hroots⟩ hsilent

/-- A tree that has only moved on since it was last shown is announced by publishing it. -/
theorem announced_publish (hs : InSync listens s) (hreach : s'.intake.tree.Reachable)
    (hupdates : updates s'.calls = updates s.calls) (hgen : s.generation ≤ s'.generation)
    (hversion : s.generation = s'.generation → s.version ≤ s'.intake.tree.version)
    (htree : s.generation = s'.generation → s'.intake.tree.version = s.version →
      s'.intake.tree = s.intake.tree) : Announced listens s (publish tell s').1 := by
  obtain ⟨roots, hroots, heq⟩ := publish_eq tell hreach
  rw [heq]
  refine h.announced_notify hs ⟨hreach, rfl, hroots⟩ hupdates ⟨hgen, hversion, fun hsame hnow => ?_⟩
  have hold := hs.mirrored.roots
  rw [← htree hsame hnow.symm, hroots] at hold
  exact (Except.ok.inj hold).symm

theorem announced_setStatus (hs : InSync listens s) (status : Status) :
    Announced listens s (setStatus tell status s).1 := by
  rw [setStatus]
  by_cases hsame : s.status = status
  · rw [if_pos hsame]
    exact .refl hs
  · rw [if_neg hsame]
    exact h.announced_notify hs ⟨hs.mirrored.reachable, hs.mirrored.version, hs.mirrored.roots⟩ rfl
      (.of_eq rfl rfl rfl)

/-! ### Records -/

/-- A record changes the tree alone of all that can be seen. -/
theorem takeRecord_shown (bytes : List UInt8) (s : Session) :
    ∃ s', takeRecord tell bytes s = (s', .ok (processRecord s.intake.limits s.intake.tree bytes).2) ∧
      s'.shown = s.shown ∧
      s'.intake = { s.intake with tree := (processRecord s.intake.limits s.intake.tree bytes).1 } := by
  have hdeliver : ∀ r, (deliver tell r).Keeps shown :=
    Act.Keeps.deliver (fun _ _ => rfl) (fun _ _ => rfl) (fun _ => h.keeps_shown rfl) fun _ => h.keeps_shown rfl
  have hshown := (read_takeRecord (f := shown) (fun _ _ => rfl) tell bytes s).trans (hdeliver _ _)
  obtain ⟨s', htake, hcore⟩ := h.mute.passive.takeRecord bytes s
  rw [htake] at hshown
  exact ⟨s', htake, hshown, congrArg Core.intake hcore⟩

/-- **Records come first, and then the tree is published once**, if any of them was accepted. -/
theorem takeRecords_eq (records : List (List UInt8)) (before : Bool) (s : Session) :
    ∃ s', s'.shown = s.shown ∧
      s'.intake = { s.intake with tree := (processAll s.intake.limits s.intake.tree records).1 } ∧
      takeRecords tell before records s =
        (if before || !(accepted (processAll s.intake.limits s.intake.tree records).2).isEmpty then publish tell
          else pure ()) s' := by
  induction records generalizing before s with
  | nil => exact ⟨s, rfl, rfl, by rw [takeRecords, processAll]; cases before <;> rfl⟩
  | cons r records ih =>
    obtain ⟨s₁, htake, hshown₁, hintake₁⟩ := h.takeRecord_shown r s
    obtain ⟨s₂, hshown₂, hintake₂, hrest⟩ :=
      ih (before || (processRecord s.intake.limits s.intake.tree r).2.message?.isSome) s₁
    have haccepted : accepted (processAll s.intake.limits s.intake.tree (r :: records)).2 =
        (processRecord s.intake.limits s.intake.tree r).2.message?.toList ++
          accepted (processAll s.intake.limits (processRecord s.intake.limits s.intake.tree r).1 records).2 :=
      accepted_cons _ _
    rw [hintake₁] at hintake₂ hrest
    refine ⟨s₂, hshown₂.trans hshown₁, hintake₂, ?_⟩
    rw [takeRecords, Act.bind_apply, htake, haccepted]
    refine hrest.trans ?_
    cases (processRecord s.intake.limits s.intake.tree r).2.message? with
    | none =>
      rw [Option.isSome_none, Bool.or_false]
      rfl
    | some m =>
      rw [Option.isSome_some, Bool.or_true, Bool.true_or]
      exact congrFun (if_pos (Bool.or_true before)).symm s₂

/-- **Records are announced**, however many of them are dropped or change nothing. -/
theorem announced_takeRecords (hs : InSync listens s) (records : List (List UInt8)) :
    Announced listens s (takeRecords tell false records s).1 := by
  obtain ⟨s', hshown, hintake, heq⟩ := h.takeRecords_eq records false s
  obtain ⟨hle, hsame, hnone⟩ := processAll_advances s.intake.limits s.intake.tree records
  have htree : s'.intake.tree = (processAll s.intake.limits s.intake.tree records).1 :=
    congrArg Stream.Intake.tree hintake
  have hgen : s'.generation = s.generation := congrArg Shown.generation hshown
  rw [heq, Bool.false_or]
  split
  · rw [← htree] at hle hsame
    refine h.announced_publish hs ?_ (congrArg Shown.updates hshown) (Nat.le_of_eq hgen.symm) (fun _ => ?_)
      fun _ hversion => ?_
    · rw [htree]
      exact Stream.Reachable.processAll hs.mirrored.reachable _ _
    · rw [hs.mirrored.version]
      exact hle
    · exact hsame (hversion.trans hs.mirrored.version)
  · rename_i hquiet
    refine .of_shown hs hshown (htree.trans (hnone ?_))
    simpa using hquiet

end Plain

/-! ### Acts that announce what they change -/

/-- An act that shows the host whatever it changes. -/
def Act.Announces (listens : CallKind → Bool) (m : Act α) : Prop :=
  ∀ s, InSync listens s → Announced listens s (m s).1

namespace Act.Announces

theorem of_keeps {m : Act α} (hshown : m.Keeps shown) (hcore : m.Keeps fun s => s.intake.tree) :
    m.Announces listens :=
  fun s hs => .of_shown hs (hshown s) (hcore s)

theorem pure (a : α) : (Pure.pure a : Act α).Announces listens := fun _ hs => .refl hs

theorem get (f : Session → α) : (Act.get f).Announces listens := fun _ hs => .refl hs

theorem bind {m : Act α} {k : α → Act β} (hm : m.Announces listens) (hk : ∀ a, (k a).Announces listens) :
    (m >>= k).Announces listens :=
  Leads.bind (R := fun s s' => InSync listens s → Announced listens s s')
    (fun _ _ _ h h' hs => (h hs).trans (h' (h hs).inSync)) hm hk

theorem ite {b : Prop} [Decidable b] {m m' : Act α} (hm : m.Announces listens) (hm' : m'.Announces listens) :
    (if b then m else m').Announces listens :=
  Leads.ite (R := fun s s' => InSync listens s → Announced listens s s') hm hm'

theorem unlessStale (stint : Stint) {m m' : Act α} (hm : m.Announces listens) (hm' : m'.Announces listens) :
    (Act.unlessStale stint m m').Announces listens :=
  Leads.unlessStale (R := fun s s' => InSync listens s → Announced listens s s') stint hm hm'

end Act.Announces

namespace Plain

variable (h : Plain listens tell)

include h

theorem announces_setStatus (status : Status) : (setStatus tell status).Announces listens :=
  fun _ hs => h.announced_setStatus hs status

theorem announces_report (fault : Fault) : (report tell fault).Announces listens := by
  refine .of_keeps (Act.Keeps.report (fun _ _ => rfl) (h.keeps_shown rfl)) fun s => ?_
  exact congrArg (fun c => c.intake.tree) (h.mute.passive.report fault s)

theorem announces_feed (n : Nat) (chunk : Chunk) : (feed tell n chunk).Announces listens := by
  intro s hs
  -- bytes in a buffer are not seen
  have hreceive : Announced listens s (receive n chunk s) := by
    refine .of_shown hs ?_ ?_
    · rw [receive]
      split
      · rfl
      · rfl
    · rw [receive]
      split
      · rfl
      · rfl
  exact hreceive.trans (h.announced_takeRecords hreceive.inSync _)

theorem announces_finish (n : Nat) : (finish tell n).Announces listens := by
  intro s hs
  have hempty : Announced listens s (setBuffer n [] s) := .of_shown hs rfl rfl
  exact hempty.trans (h.announced_takeRecords hempty.inSync _)

/-- Whatever a fault brings about is announced. -/
theorem spans : Spans tell fun s s' => InSync listens s → Announced listens s s' where
  refl := fun _ hs => .refl hs
  trans := fun _ _ _ h h' hs => (h hs).trans (h' (h hs).inSync)
  lastError := fun _ _ hs => .of_shown hs rfl rfl
  metrics := fun _ _ hs => .of_shown hs rfl rfl
  error := h.announces_setStatus .error
  report := h.announces_report

/-! ### The main stream -/

theorem announces_concludeMain (stint : Stint) (n : Nat) : (concludeMain tell stint n).Announces listens := by
  refine .unlessStale stint (.pure _) (.bind (.get _) fun terminal => .ite ?_ ?_)
  · exact .bind (h.announces_setStatus .error) fun _ => .pure _
  · exact .bind (h.announces_finish n) fun _ => .bind (h.announces_setStatus .connected) fun _ => .pure _

theorem announces_readMain (stint : Stint) (n : Nat) (a : Arrival) : (readMain tell stint n a).Announces listens := by
  have hconclude : (do return some (← concludeMain tell stint n) : Act (Option Outcome)).Announces listens :=
    .bind (h.announces_concludeMain stint n) fun _ => .pure _
  cases a with
  | opened records =>
    exact .unlessStale stint (.pure _) (.bind (h.announces_setStatus .streaming) fun _ => .pure _)
  | chunk chunk =>
    refine .unlessStale stint (.pure _) (.bind (h.announces_feed n chunk) fun _ => .bind (.get _) fun terminal => ?_)
    exact .ite hconclude (.pure _)
  | ended => exact hconclude
  | failed fault => exact fun _ hs => .refl hs
  | _ => exact .pure _

theorem announced_stepMain (hs : InSync listens s) (id : Nat) (stint : Stint) (n : Nat) (a : Arrival) :
    Announced listens s (stepMain tell id stint n a s) := by
  have hread := h.announces_readMain stint n a s hs
  rw [stepMain]
  cases hr : readMain tell stint n a s with
  | mk s' r =>
    rw [hr] at hread
    cases r with
    | ok o =>
      cases o with
      | none => exact hread.trans (.of_shown hread.inSync rfl rfl)
      | some o => exact hread.trans (.of_shown hread.inSync rfl rfl)
    | error fault =>
      have hrescue := h.spans.rescueMain stint fault s' hread.inSync
      exact (hread.trans hrescue).trans (.of_shown hrescue.inSync rfl rfl)

/-! ### Streamed replies -/

theorem announced_stepReply (hs : InSync listens s) (id : Nat) (stint : Stint) (n : Nat) (a : Arrival) :
    Announced listens s (stepReply tell id stint n a s) := by
  have hread := h.spans.readReply h.announces_feed h.announces_finish stint n a s hs
  rw [stepReply]
  cases hr : readReply tell stint n a s with
  | mk s' r =>
    rw [hr] at hread
    cases r with
    | ok finished =>
      cases finished with
      | false => exact hread.trans (.of_shown hread.inSync rfl rfl)
      | true => exact hread.trans (.of_shown hread.inSync rfl rfl)
    | error fault =>
      have hrescue := h.spans.rescueReply stint fault s' hread.inSync
      exact (hread.trans hrescue).trans (.of_shown hrescue.inSync rfl rfl)

/-! ### All tasks -/

theorem announced_stepPost (hs : InSync listens s) (id : Nat) (a : Arrival) :
    Announced listens s (stepPost tell id a s) := by
  have hidle : Announced listens s s := .refl hs
  cases a with
  | posted => exact .of_shown hs rfl rfl
  | failed fault =>
    cases fault with
    | connection f =>
      have hcount : Announced listens s (s.count (postCounter "failed") 1) := .of_shown hs rfl rfl
      have hreport := hcount.trans (h.announces_report (notSent f) _ hcount.inSync)
      exact hreport.trans (.of_shown hreport.inSync rfl rfl)
    | _ => exact .of_shown hs rfl rfl
  | cancelled => exact .of_shown hs rfl rfl
  | _ => exact hidle

theorem announced_stepStream (hs : InSync listens s) (id : Nat) (w : Work) (n : Nat) (fits : Bool) (a : Arrival) :
    Announced listens s (stepStream tell id w n fits a s) := by
  refine stepStream_cases ?_ ?_ ?_ ?_ ?_
  · exact fun _ => .refl hs
  · intro stint _ _
    obtain ⟨o, f, _, hstop⟩ := exists_stopMain id stint (s.clearRequest id)
    rw [hstop]
    exact .of_shown hs rfl rfl
  · intro stint _ _
    obtain ⟨f, _, hstop⟩ := exists_stopReply id stint (s.clearRequest id)
    rw [hstop]
    exact .of_shown hs rfl rfl
  · exact fun stint _ _ => h.announced_stepMain hs id stint n a
  · exact fun stint _ _ => h.announced_stepReply hs id stint n a

/-- **Every step of a task is announced.** -/
theorem announced_step (hs : InSync listens s) (id : Nat) (a : Arrival) : Announced listens s (step tell id a s) := by
  rw [step]
  cases s.tasks[id]? with
  | none => exact .refl hs
  | some t =>
    dsimp only
    cases t.phase with
    | fresh =>
      cases a with
      | start =>
        show Announced listens s (begin id t s)
        rw [begin]
        split
        · exact .of_shown hs rfl rfl
        · exact .of_shown hs rfl rfl
        · exact .of_shown hs rfl rfl
      | cancelled => exact .of_shown hs rfl rfl
      | _ => exact .refl hs
    | opening n => exact h.announced_stepStream hs id t.work n a.isEarly a
    | reading n => exact h.announced_stepStream hs id t.work n a.isLate a
    | posting => exact h.announced_stepPost hs id a
    | _ => exact .refl hs

/-! ### Moves -/

theorem announces_disconnect : (disconnect tell).Announces listens :=
  .bind (.of_keeps (fun _ => rfl) fun _ => rfl) fun _ => h.announces_setStatus .idle

/-- A connect is announced although it empties the tree, as a generation begins with it. -/
theorem announces_connect (message : Option String) (extra : Assoc Json.Value) :
    (connect tell message extra).Announces listens := by
  refine .bind h.announces_disconnect fun _ s hs => ?_
  have hpublish : Announced listens s (publish tell (beginGeneration s)).1 := by
    have hlater : s.generation < (beginGeneration s).generation := Nat.lt_succ_self _
    exact h.announced_publish hs Reachable.empty rfl (Nat.le_of_lt hlater)
      (fun hsame => absurd hsame (Nat.ne_of_lt hlater)) fun hsame => absurd hsame (Nat.ne_of_lt hlater)
  have hreturn := Act.eq_ok (h.mute.passive.publish_returns (s := beginGeneration s) Reachable.empty)
  have hrest : ∀ task, (setStatus tell .connecting >>= fun _ => Act.change (launchMain task)).Announces listens :=
    fun task => .bind (h.announces_setStatus .connecting) fun _ => .of_keeps (fun _ => rfl) fun _ => rfl
  show Announced listens s
    ((publish tell >>= fun _ => setStatus tell .connecting >>= fun _ => Act.change (launchMain _))
      (beginGeneration s)).1
  rw [Act.bind_apply, hreturn]
  exact hpublish.trans (hrest _ _ hpublish.inSync)

/-- **Every move but a reset is announced.** -/
theorem announced_act (hs : InSync listens s) {m : Move} (hm : m ≠ .reset) : Announced listens s (m.act tell s) := by
  cases m with
  | connect message extra => exact h.announces_connect message extra s hs
  | disconnect => exact h.announces_disconnect s hs
  | reset => exact absurd rfl hm
  | action sent stream extra => exact .of_shown hs rfl rfl
  | step id a => exact h.announced_step hs id a

/-- A reset takes versions back, but it shows the empty tree. -/
theorem inSync_act (hs : InSync listens s) (m : Move) : InSync listens (m.act tell s) := by
  by_cases hm : m = .reset
  · subst hm
    exact h.inSync_publish (s := { s with intake := s.intake.reset 0 }) Reachable.empty hs.silent
  · exact (h.announced_act hs hm).inSync

/-! ### Runs -/

theorem inSync_after (hs : InSync listens s) (moves : List Move) : InSync listens (after tell s moves) := by
  induction moves generalizing s with
  | nil => exact hs
  | cons m moves ih => exact ih (h.inSync_act hs m)

theorem announced_after (hs : InSync listens s) {moves : List Move} (hmoves : .reset ∉ moves) :
    Announced listens s (after tell s moves) := by
  induction moves generalizing s with
  | nil => exact .refl hs
  | cons m moves ih =>
    have hfirst : Announced listens s (m.act tell s) :=
      h.announced_act hs fun hm => hmoves (hm ▸ List.mem_cons_self)
    exact hfirst.trans (ih hfirst.inSync fun hmem => hmoves (List.mem_cons_of_mem _ hmem))

end Plain

/-- Only a connect begins a generation. -/
theorem Steady.generation_act (h : Steady tell) {m : Move} (hm : m.connects = false) (s : Session) :
    (m.act tell s).generation = s.generation := by
  cases m with
  | connect message extra => exact absurd hm (by simp [Move.connects])
  | disconnect => exact congrArg (fun x => x.stint.generation) (h.schedule_disconnect s)
  | reset => exact congrArg (fun x => x.stint.generation) (h.schedule_reset s)
  | action sent stream extra => rfl
  | step id a =>
    show (step tell id a s).generation = s.generation
    cases ht : s.tasks[id]? with
    | none => rw [step, ht]
    | some t =>
      obtain ⟨u, hschedule, _⟩ := h.turns_step ht a
      exact congrArg (fun x => x.stint.generation) hschedule

theorem Steady.generation_after (h : Steady tell) {moves : List Move} (hmoves : ∀ m ∈ moves, m.connects = false)
    (s : Session) : (after tell s moves).generation = s.generation := by
  induction moves generalizing s with
  | nil => rfl
  | cons m moves ih =>
    have hrest := ih (fun m' hm' => hmoves m' (List.mem_cons_of_mem _ hm')) (m.act tell s)
    exact hrest.trans (h.generation_act (hmoves m List.mem_cons_self) s)

/-- What a host may ask for at any time is true, and it is what the host was shown last; a host that listens and was
shown nothing has missed nothing. -/
structure UpToDate (listens : CallKind → Bool) (s : Session) : Prop where
  version : s.snapshot.version = s.intake.tree.version
  roots : s.intake.tree.roots = .ok s.snapshot.roots
  complete : s.snapshot.complete = s.intake.tree.complete
  last : ∀ snapshot, (updates s.calls).getLast? = some snapshot → snapshot.Agrees s.snapshot
  unseen : listens .update = true → updates s.calls = [] → Snapshot.fresh.Agrees s.snapshot

/-- The main stream brings a component, and then a change to one that is not there; a reply changes the component once
it has removed another one that is not there. -/
def sharing : List Move :=
  let component := Stream.Intake.componentText (Stream.Intake.nodeText "a" "Card" "\x7b\x7d" [])
  [.step 0 (.chunk ⟨Stream.Intake.ndjson [component], true⟩),
    .action ⟨.click, "a", none, 1⟩ (some true) [], .step 1 .start, .step 1 (.opened true),
    .step 1 (.chunk ⟨Stream.Intake.ndjson [Stream.Intake.removeText "b"], true⟩),
    .step 0 (.chunk ⟨Stream.Intake.ndjson [Stream.Intake.updateText "b" "\x7b\x7d"], true⟩),
    .step 1 (.chunk ⟨Stream.Intake.ndjson [Stream.Intake.updateText "a" "\x7b\"text\":\"x\"\x7d"], false⟩),
    .step 0 .ended, .disconnect]

end ComponentStream.Session
