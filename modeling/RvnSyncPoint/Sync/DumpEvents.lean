import RvnSyncPoint.Sync.DumpPoints
import RvnSyncPoint.Sync.EventText
import RvnSyncPoint.Sync.Stream

/-!
# `dump_sync_events`

The program that prints the events of a sync file (`bin/dump_sync_events/dump_sync_events.cpp`), whose
loop makes the runs `DumpRun`. Where it ends, it has printed the number of records and the events of a run
(`loop_eventPass_iff`); the positions are decimal throughout, although an event's registers are printed in
hexadecimal. On a recording made of groups it ends, and what it prints tells how many records there are
and all that is shown of the merged events (`dumpSyncEvents_inj`).
-/

namespace RvnSyncPoint

open Loop Printing StreamableFile

/-- One pass of the loop of `dump_sync_events`. -/
def eventPass : SyncFile × Ostream → Option (SyncFile × Ostream ⊕ Exit × Ostream)
  | (file, cout) => do
    let file ← file.next
    if file.current.valid then
      match ← file.currentEvent with
      | .thrown err _ => return .inr (.thrown err, cout)
      | .returned event file => return .inl (file, (cout.syncEvent event).endl)
    else return .inr (.returned, cout)

/-- `main()` of `dump_sync_events` with a file, which is opened without a data file. -/
def dumpSyncEvents (u : Uninitialised) (source : Option (List UInt8)) : Option (Exit × Ostream) :=
  match (SyncFile.new u).load source none with
  | .thrown err _ => some (.thrown err, {})
  | .divisionByZero => some (.divisionByZero, {})
  | .returned _ file => loop eventPass (file, ({} : Ostream).syncPointCount file)

/-- The insertions of events, each with a line feed. -/
def Ostream.syncEvents (es : List SyncEvent) (cout : Ostream) : Ostream :=
  es.foldl (fun cout event => (cout.syncEvent event).endl) cout

/-- The text of an event with the line feed that follows it. -/
def eventText (e : SyncEvent) : List Char := e.text ++ ['\n']

/-- The events after one another, in a decimal stream. -/
theorem Ostream.syncEvents_text (es : List SyncEvent) : ∀ (t : List Char) (fill : Char),
    ((Ostream.mk t .dec false fill 0).syncEvents es).text = t ++ es.flatMap eventText := by
  induction es with
  | nil => simp [syncEvents]
  | cons e es ih =>
    intro t fill
    obtain ⟨fill', hevent⟩ := syncEvent_eq t e fill
    have hstep : (Ostream.mk t .dec false fill 0).syncEvents (e :: es) =
        (Ostream.mk (t ++ eventText e) .dec false fill' 0).syncEvents es := by
      unfold syncEvents eventText
      rw [List.foldl_cons, hevent, endl, List.append_assoc]
    rw [hstep, ih, List.flatMap_cons, List.append_assoc]

/-- The events tell what is shown of them. -/
theorem eventTexts_inj {es es' : List SyncEvent} : es.flatMap eventText = es'.flatMap eventText ↔
    es.map SyncEvent.shown = es'.map SyncEvent.shown := by
  constructor
  · intro h
    have hne (e : SyncEvent) : eventText e ≠ [] := by simp [eventText]
    have hdet : Determines (fun _ _ => True) eventText fun a b => a.shown = b.shown :=
      .append SyncEvent.text_determines (.literal _)
    have hall := hdet.flatMap_eq hne es es' (by simp) h
    rwa [← List.forall₂_eq_eq_eq, List.forall₂_map_left_iff, List.forall₂_map_right_iff]
  · intro h
    have htexts (es : List SyncEvent) :
        es.flatMap eventText = (es.map SyncEvent.shown).flatMap eventText := by
      rw [List.flatMap_map]
      refine List.flatMap_congr fun e _ => ?_
      rw [eventText, eventText, SyncEvent.text_shown]
    rw [htexts es, h, ← htexts]

/-! ## Runs -/

section

variable {f g : SyncFile} {es : List SyncEvent} {cout : Ostream}

/-- After the events of a run have been printed, the loop goes on from the reader that the run leads to. -/
theorem DumpRun.loop_eq {ok : SyncFile → Prop} (hrun : DumpRun ok f es g) :
    loop eventPass (f, cout) = loop eventPass (g, cout.syncEvents es) := by
  induction hrun with
  | start => rfl
  | @step es g g' g'' e hrun hnext hvalid hok hevent ih =>
    have hpass : eventPass (g, cout.syncEvents es) =
        some (.inl (g'', ((cout.syncEvents es).syncEvent e).endl)) := by
      simp [eventPass, hnext, hvalid, hevent]
    have hprinted : cout.syncEvents (es ++ [e]) = ((cout.syncEvents es).syncEvent e).endl := by
      simp only [Ostream.syncEvents, List.foldl_append, List.foldl_cons, List.foldl_nil]
    rw [ih, loop_again hpass, hprinted]

/-- The loop from `f` ends with `x`, after a run that got the events `es`. -/
inductive EventsEnd (f : SyncFile) (es : List SyncEvent) : Exit → Prop
  | returned {g g' : SyncFile} (hrun : DumpRun (fun _ => True) f es g) (hnext : g.next = some g')
    (hvalid : g'.current.valid = false) : EventsEnd f es .returned
  | thrown {g g' k : SyncFile} {err : RuntimeError} (hrun : DumpRun (fun _ => True) f es g)
    (hnext : g.next = some g') (hvalid : g'.current.valid = true)
    (hthrown : g'.currentEvent = some (.thrown err k)) : EventsEnd f es (.thrown err)

/-- Where the loop ends, it has printed the events of a run. -/
theorem loop_eventPass_iff {x : Exit} {out : Ostream} :
    loop eventPass (f, cout) = some (x, out) ↔ ∃ es, EventsEnd f es x ∧ out = cout.syncEvents es := by
  constructor
  · -- The events printed so far are those of a run to the reader that the loop is at.
    intro h
    let Inv (s : SyncFile × Ostream) : Prop :=
      ∃ es, DumpRun (fun _ => True) f es s.1 ∧ s.2 = cout.syncEvents es
    refine loop_inv Inv (fun x => ∃ es, EventsEnd f es x.1 ∧ x.2 = cout.syncEvents es) ?_ ?_ _ _
      ⟨[], .start, rfl⟩ h
    · rintro ⟨g, c⟩ s ⟨es, hrun, rfl⟩ hpass
      simp only [eventPass, Option.bind_eq_bind, Option.bind_eq_some_iff] at hpass
      obtain ⟨g', hnext, hpass⟩ := hpass
      split_ifs at hpass with hvalid
      · obtain ⟨o, hevent, hpass⟩ := Option.bind_eq_some_iff.mp hpass
        cases o with
        | thrown err k => cases hpass
        | returned e g'' =>
          cases hpass
          refine ⟨es ++ [e], hrun.step hnext hvalid trivial hevent, ?_⟩
          simp only [Ostream.syncEvents, List.foldl_append, List.foldl_cons, List.foldl_nil]
      · cases hpass
    · rintro ⟨g, c⟩ x ⟨es, hrun, rfl⟩ hpass
      simp only [eventPass, Option.bind_eq_bind, Option.bind_eq_some_iff] at hpass
      obtain ⟨g', hnext, hpass⟩ := hpass
      split_ifs at hpass with hvalid
      · obtain ⟨o, hevent, hpass⟩ := Option.bind_eq_some_iff.mp hpass
        cases o with
        | thrown err k =>
          cases hpass
          exact ⟨es, .thrown hrun hnext hvalid hevent, rfl⟩
        | returned e g'' => cases hpass
      · cases hpass
        exact ⟨es, .returned hrun hnext (by simpa using hvalid), rfl⟩
  · rintro ⟨es, hend, rfl⟩
    cases hend with
    | returned hrun hnext hvalid =>
      rw [hrun.loop_eq]
      exact loop_leave (by simp [eventPass, hnext, hvalid])
    | thrown hrun hnext hvalid hthrown =>
      rw [hrun.loop_eq]
      exact loop_leave (by simp [eventPass, hnext, hvalid, hthrown])

end

/-! ## The program -/

/-- Where the program ends on a recording, it has printed the number of records and the events of a run
of a new reader. -/
theorem dumpSyncEvents_iff {R : Recording} {u : Uninitialised} {x : Exit} {out : Ostream} :
    dumpSyncEvents u (some R.content) = some (x, out) ↔ ∃ f es, Loaded R none f ∧
      (SyncFile.new u).load (some R.content) none = .returned true f ∧ EventsEnd f es x ∧
      out = (({} : Ostream).syncPointCount f).syncEvents es := by
  obtain ⟨f, hf, hload⟩ := Loaded.exists_no_data R u
  have hprogram : dumpSyncEvents u (some R.content) =
      loop eventPass (f, ({} : Ostream).syncPointCount f) := by
    unfold dumpSyncEvents
    rw [hload]
  rw [hprogram, loop_eventPass_iff]
  constructor
  · rintro ⟨es, hend, hout⟩
    exact ⟨f, es, hf, hload, hend, hout⟩
  · rintro ⟨g, es, -, hload', hend, hout⟩
    rw [hload] at hload'
    cases hload'
    exact ⟨es, hend, hout⟩

/-- The text that is printed for a number of records and some events. -/
theorem Ostream.syncPointCount_syncEvents {R : Recording} {f : SyncFile} (hf : Loaded R none f)
    (es : List SyncEvent) : ((({} : Ostream).syncPointCount f).syncEvents es).text =
      countText R.count ++ es.flatMap eventText := by
  rw [syncPointCount_eq, syncEvents_text, hf.reading.sync_point_count]

/-- The kept records of the recording form the groups, of which the last one is not to be merged. -/
structure Recording.MadeOf (R : Recording) (gs : List Group) : Prop where
  flagged : R.Flagged
  grouped : Grouped gs
  points : R.kept.map R.pointAt = gs.flatMap Group.points
  last : ∀ g ∈ gs.getLast?, g.event.withoutEffect = false

/-- On a recording made of groups, `dump_sync_events` ends, and prints the merged events. -/
theorem Recording.MadeOf.dump {R : Recording} {gs : List Group} (h : R.MadeOf gs) (u : Uninitialised) :
    ∃ out, dumpSyncEvents u (some R.content) = some (.returned, out) ∧
      out.text = countText R.count ++ (mergeEvents (gs.map Group.event)).flatMap eventText := by
  obtain ⟨f, hf, hload⟩ := Loaded.exists_no_data R u
  have hawaits := hf.awaits h.flagged h.grouped h.points
  obtain ⟨g, g', hrun, hnext, hvalid⟩ := (Awaits.run h.flagged gs.length gs f [] rfl hawaits .start).2 h.last
  exact ⟨_, dumpSyncEvents_iff.mpr ⟨f, _, hf, hload, .returned hrun hnext hvalid, rfl⟩,
    Ostream.syncPointCount_syncEvents hf _⟩

/-- `dump_sync_events` on two recordings made of groups: it ends on both, and prints the same exactly when
they have as many records, and the merged events are the same up to what is not shown of them. -/
theorem dumpSyncEvents_inj (R S : Recording) (gs hs : List Group) (u v : Uninitialised)
    (hR : R.MadeOf gs) (hS : S.MadeOf hs) :
    ∃ out out', dumpSyncEvents u (some R.content) = some (.returned, out) ∧
      dumpSyncEvents v (some S.content) = some (.returned, out') ∧
      (out.text = out'.text ↔ R.count = S.count ∧ (mergeEvents (gs.map Group.event)).map SyncEvent.shown =
        (mergeEvents (hs.map Group.event)).map SyncEvent.shown) := by
  obtain ⟨out, hout, htext⟩ := hR.dump u
  obtain ⟨out', hout', htext'⟩ := hS.dump v
  refine ⟨out, out', hout, hout', ?_⟩
  rw [htext, htext', ← eventTexts_inj]
  constructor
  · intro h
    exact countText_determines _ _ _ _ trivial h
  · rintro ⟨hcount, hevents⟩
    rw [hcount, hevents]

theorem fourGroups_madeOf : fourGroups.MadeOf fourGroupsList := by
  refine ⟨fourGroups_flagged, fourGroupsList_grouped, fourGroups_points, fun g hg => ?_⟩
  cases hg
  rfl

/-- On the recording of four groups, it prints the same whatever the memory of the reader held. -/
theorem dumpSyncEvents_inj_fourGroups : ∃ out out',
    dumpSyncEvents ⟨false, false, 0, 0, fun _ => (7, .INTERRUPT)⟩ (some fourGroups.content) =
      some (.returned, out) ∧
    dumpSyncEvents ⟨true, true, 5, 1, fun _ => (0, .VMENTER)⟩ (some fourGroups.content) =
      some (.returned, out') ∧ out.text = out'.text := by
  obtain ⟨out, out', hout, hout', htexts⟩ := dumpSyncEvents_inj fourGroups fourGroups _ _
    ⟨false, false, 0, 0, fun _ => (7, .INTERRUPT)⟩ ⟨true, true, 5, 1, fun _ => (0, .VMENTER)⟩
    fourGroups_madeOf fourGroups_madeOf
  exact ⟨out, out', hout, hout', htexts.mpr ⟨rfl, rfl⟩⟩

end RvnSyncPoint
