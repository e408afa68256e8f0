import RvnSyncPoint.Sync.DumpEvents
import RvnSyncPoint.Sync.Paired
import RvnSyncPoint.Sync.PlayRuns

/-!
# Playing the old format

A reader of a version-2 file is paired with one of the version-3 file with the same records, and that one
plays the log: the two simulations compose. So a recording in the old format is played as the log of the
same recording in the new one, up to the vectors of points that are not interrupts
(`plays_recordingV2`). The loop of `dump_sync_events` does not see those, and prints the same on both
(`dumpSyncEvents_formats`).
-/

namespace RvnSyncPoint

open LittleEndian Loop Refinement StreamableFile

section

variable {A : RecordingV2} {B : Recording} {log : Log} {D : StreamableFile → Prop} {f g k : SyncFile}
  {s : Player} {c : Call} {data : Option (List UInt8)}

/-! ## Two simulations -/

/-- A reader of the old format simulates one of the new format. -/
theorem paired_simulates (hA : A.Plain) (hAB : Rewrites A B) :
    Simulates SameAnswer Call.answer Call.answer (fun g c => c.Foreseen B g) (Paired A B) := by
  intro f g c h hok
  refine rel_map (h.run hA hAB hok) fun x y hxy => ?_
  cases hxy with
  | returned hv h => exact ⟨hv, h⟩
  | thrown h => exact ⟨.inl rfl, h⟩

/-- Where the player finds an event, so does the reader that plays the log. -/
theorem Plays.foresees (hD : Delivers B log D) (h : Plays B D g s) (hok : s.Settles log) :
    g.Foresees B := by
  intro hnot
  rw [h.current_event, h.eof] at hnot
  have hs : s.ended = false := (Bool.or_eq_false_iff.mp hnot).2
  refine ⟨h.reading hs, fun hv => ?_, ?_⟩
  · rw [h.position]
    exact h.vmexit hs (h.current ▸ hv)
  · rw [h.position, h.current, h.tape hD, ← hD.length]
    exact hok hnot

/-- A call in the domain of the player is foreseen. -/
theorem Plays.foreseen (hD : Delivers B log D) (h : Plays B D g s) (hok : s.Allows log c) :
    c.Foreseen B g := by
  cases c with
  | currentEvent => exact h.foresees hD hok
  | advanceTo q =>
    obtain ⟨hq, hsettles⟩ := hok
    refine ⟨hD.length ▸ hq, fun g' k hg' h0 hv hk => ?_⟩
    obtain ⟨g'', hg'', hplays⟩ := seek_plays hD h.attached h.data h.current_event hq
    rw [hg'] at hg''
    cases hg''
    rw [hplays.current] at hv
    have hle := Player.seek_isVmenter hv
    obtain ⟨k', hk', hback⟩ := hplays.backToVmexit hD q g' _ (s.seek_position hle) hle
    rw [hk] at hk'
    cases hk'
    exact hback.foresees hD (hsettles h0 hv)
  | seekFromEnd p =>
    rw [Player.Allows, hD.length] at hok
    exact hok
  | _ => trivial

/-! ## Loading -/

/-- Any new reader loads a recording in the old format with its data file. -/
theorem RecordingV2.exists_loaded (A : RecordingV2) (hmagic : HasDataMagic data) (u : Uninitialised) :
    ∃ f, (SyncFile.new u).load (some A.content) data = .returned true f := by
  cases data with
  | none => exact (load_recordingV2_no_data A u).imp fun f h => h.2.1
  | some dc =>
    have hload := load_recordingV2 A (.new u) (some dc)
    rw [loadData_magic (hmagic dc rfl)] at hload
    exact ⟨_, hload⟩

/-- Freshly loaded readers of the two files are paired. -/
theorem LoadedV2.paired (hf : LoadedV2 A data f) (hg : Loaded B data g) : Paired A B f g := by
  obtain ⟨-, -, hevent, hlast⟩ := hg.fields
  have htwins := hf.twins hg
  obtain ⟨u, hu⟩ := hf
  rw [load_recordingV2] at hu
  obtain ⟨-, -, hf⟩ := loadData_returned hu
  exact ⟨htwins, (congrArg SyncFile.current_event hf).trans hevent.symm,
    (congrArg SyncFile.last_valid_position hf).trans hlast.symm, congrArg SyncFile.sync_point_count hf⟩

end

/-! ## Runs -/

/-- A recording in the old format and its data file are played as the log of the same recording in the new
format: in every sequence of public calls that stays in the domain of the player, the new reader on which
they were loaded gives what the player gives, call for call, up to the vectors of points that are not
interrupts. -/
theorem plays_recordingV2 (A : RecordingV2) (B : Recording) (data : Option (List UInt8)) (hA : A.Plain)
    (hAB : Rewrites A B) (hdata : B.DataSafe data) (u : Uninitialised) (cs : List Call)
    (hcs : Within (Player.answer (B.log data)) (Player.Allows (B.log data)) cs {}) :
    ∃ f, (SyncFile.new u).load (some A.content) data = .returned true f ∧
      Option.Rel (List.Forall₂ SameAnswer) (Call.results cs f)
        (answers (Player.answer (B.log data)) cs {}) := by
  obtain ⟨f, hloadA⟩ := A.exists_loaded hdata.1 u
  obtain ⟨D, g, hloadB, hD, hplays⟩ := Recording.exists_plays hdata u
  have hpaired : Paired A B f g := LoadedV2.paired ⟨u, hloadA⟩ ⟨u, hloadB⟩
  have hsim := (paired_simulates hA hAB).trans hD.simulates fun g s c h hok => h.foreseen hD hok
  rw [Relation.comp_eq] at hsim
  exact ⟨f, hloadA, Call.results_eq cs f ▸ hsim.answers cs f {} ⟨g, hpaired, hplays⟩ hcs⟩

/-- A VMExit and an interrupt: the event that they make, which the end of the file cuts, and the interrupt
again. -/
theorem plays_recordingV2_cut : ∃ (A : RecordingV2) (log : Log) (f : SyncFile), A.count = 2 ∧
    (SyncFile.new ⟨false, false, 0, 0, fun _ => (7, .INTERRUPT)⟩).load (some A.content) none =
        .returned true f ∧
      Option.Rel (List.Forall₂ SameAnswer) (Call.results [.next, .currentEvent, .seekFromEnd 0, .next] f)
        (answers (Player.answer log) [.next, .currentEvent, .seekFromEnd 0, .next] {}) := by
  have hlen : exitThenInterrupt.length ≤ 2 ^ 32 := by decide
  have hlen' : (exitThenInterrupt.map SyncRecordV2.widen).length ≤ 2 ^ 32 := by decide
  have htsc : ∀ r ∈ exitThenInterrupt.map SyncRecordV2.widen, r.tsc ≠ 0 := by decide
  let B := Recording.ofRecords (exitThenInterrupt.map SyncRecordV2.widen) htsc hlen'
  have hcs : Within (Player.answer (B.log none)) (Player.Allows (B.log none))
      [.next, .currentEvent, .seekFromEnd 0, .next] {} := by
    rw [Recording.ofRecords_log]
    refine ⟨trivial, fun x hx => ⟨fun _ => ?_, fun y hy =>
      ⟨show 0 < 2 by decide, fun z hz => ⟨trivial, fun _ _ => trivial⟩⟩⟩⟩
    -- The event has an interrupt, so it is not looked past.
    rw [Player.answer, Player.run, Option.map_some, Option.some.injEq] at hx
    rw [← hx]
    exact id
  have hdata : B.DataSafe none := by simp [Recording.DataSafe, HasDataMagic]
  obtain ⟨f, hload, hrel⟩ := plays_recordingV2 (.ofRecords exitThenInterrupt hlen) B none
    exitThenInterrupt_plain (ofRecords_rewrites exitThenInterrupt hlen htsc hlen') hdata
    ⟨false, false, 0, 0, fun _ => (7, .INTERRUPT)⟩ _ hcs
  exact ⟨_, _, f, rfl, hload, hrel⟩

/-! ## Events of both formats -/

section

variable {A : RecordingV2} {B : Recording} {f g k : SyncFile} {g₁ : Group} {gs : List Group} {z : Settled}

theorem Settled.own_lost {b : Prop} : z.own.Lost b ↔ z.Lost b := by
  cases z <;> exact Iff.rfl

/-- Settling on the event of a group does not get lost. -/
theorem Group.settled_not_lost {e : SyncEvent} : ¬ (g₁.settled e gs).Lost False := by
  unfold Group.settled
  split
  · exact id
  · split_ifs
    · exact fun h => h.1
    · exact id

/-- The last group, if it is not to be merged, leaves nothing. -/
theorem Group.Leaves.of_last {pre : List Group} (h : g₁.Leaves gs ∨ gs = [])
    (hlast : ∀ g ∈ (pre ++ g₁ :: gs).getLast?, g.event.withoutEffect = false) : g₁.Leaves gs := by
  rcases h with h | rfl
  · exact h
  · intro heffect
    rw [hlast g₁ (by simp)] at heffect
    cases heffect

/-- A reader that awaits groups is foreseen to get an event. -/
theorem Awaits.foresees (h : Awaits B (g₁ :: gs) g)
    (hlast : ∀ g ∈ (g₁ :: gs).getLast?, g.event.withoutEffect = false) (hnext : g.next = some k) :
    k.Foresees B := by
  intro hnot
  obtain ⟨hread, hown⟩ | ⟨-, hnil⟩ := h.state
  case inr => cases hnil
  obtain ⟨k', hk', -, ⟨x, T, htape, hafter, -, hpoint⟩ | ⟨htape, -⟩⟩ := hread.next
  · rw [hnext] at hk'
    cases hk'
    rw [htape] at hown
    obtain ⟨pre, g', gs', e, hsplit, -, -, hsettled, hleaves⟩ :=
      Tape.current_groups (N := B.count) h.grouped hown
    have hblind : (Tape.current B.count x T).own = g'.settled e gs' :=
      Tape.current_own.symm.trans (hsettled (.of_last hleaves (hsplit ▸ hlast)))
    refine ⟨hafter.1, fun _ => hafter.2.1 ▸ hpoint.1, ?_⟩
    rw [hafter.2.1, hafter.2.2.1, hafter.2.2.2, ← Settled.own_lost, hblind]
    exact Group.settled_not_lost
  · obtain ⟨z, Z, hz, -⟩ := g₁.points_cons
    rw [htape, List.flatMap_cons, hz] at hown
    cases hown

/-- The loop of `dump_sync_events` on a pair, as long as there are groups to come. -/
theorem loop_eventPass_paired (hA : A.Plain) (hAB : Rewrites A B) (hflag : B.Flagged)
    (h : Paired A B f g) (hawaits : Awaits B gs g)
    (hlast : ∀ g ∈ gs.getLast?, g.event.withoutEffect = false) (cout : Ostream) :
    loop eventPass (f, cout) = loop eventPass (g, cout) := by
  let Rel (x y : SyncFile × Ostream) : Prop := Paired A B x.1 y.1 ∧ x.2 = y.2 ∧
    ∃ gs, Awaits B gs y.1 ∧ ∀ g ∈ gs.getLast?, g.event.withoutEffect = false
  have hrel : Option.Rel Eq (loop eventPass (f, cout)) (loop eventPass (g, cout)) := by
    refine loop_rel Rel Eq ?_ _ _ ⟨h, rfl, gs, hawaits, hlast⟩
    rintro ⟨f, cout⟩ ⟨g, cout'⟩ ⟨h, rfl, gs, hawaits, hlast⟩
    refine rel_bind (rel_right (h.next hA hAB)) fun f' g' hk => ?_
    obtain ⟨h', hg'⟩ := hk
    rw [h'.current.valid]
    cases gs with
    | nil =>
      obtain ⟨k, hk, hvalid⟩ := hawaits.next_nil
      rw [hg'] at hk
      cases hk
      rw [hvalid]
      exact .some (.leave rfl)
    | cons g₁ gs =>
      obtain ⟨pre, g₂, gs', e, k, hsplit, -, -, hk, hvalid, hleaves, hstep⟩ := hawaits.step hflag
      rw [hg'] at hk
      cases hk
      obtain ⟨k', hevent, -, hawaits', -⟩ := hstep (.of_last hleaves (hsplit ▸ hlast))
      have hcurrent := h'.currentEvent hA hAB (hawaits.foresees hlast hg')
      rw [hevent] at hcurrent
      rw [hvalid, hevent, if_pos rfl, if_pos rfl]
      generalize f'.currentEvent = o at hcurrent
      cases hcurrent with
      | some hxy =>
        cases hxy with
        | returned he h =>
          subst he
          refine .some (.again ⟨h, rfl, gs', hawaits', fun g₃ hg₃ => hlast g₃ ?_⟩)
          rw [hsplit, List.getLast?_append, List.getLast?_cons, Option.mem_def.mp hg₃]
          rfl
  generalize loop eventPass (f, cout) = x, loop eventPass (g, cout) = y at hrel
  cases hrel with
  | some h => rw [h]
  | none => rfl

end

/-- On a recording in the old format, `dump_sync_events` prints what it prints on the same recording in the
new format, made of groups: the number of records and the merged events. -/
theorem dumpSyncEvents_formats (A : RecordingV2) (B : Recording) (gs : List Group) (hA : A.Plain)
    (hAB : Rewrites A B) (hB : B.MadeOf gs) (u v : Uninitialised) :
    ∃ out, dumpSyncEvents u (some A.content) = some (.returned, out) ∧
      dumpSyncEvents v (some B.content) = some (.returned, out) ∧
      out.text = countText A.count ++ (mergeEvents (gs.map Group.event)).flatMap eventText := by
  obtain ⟨f, hf, hloadA, hcount⟩ := load_recordingV2_no_data A u
  obtain ⟨g, hg, hloadB⟩ := Loaded.exists_no_data B v
  obtain ⟨out, hout, htext⟩ := hB.dump v
  refine ⟨out, ?_, hout, hAB.count ▸ htext⟩
  have hfirst : ({} : Ostream).syncPointCount f = ({} : Ostream).syncPointCount g := by
    rw [Ostream.syncPointCount_eq, Ostream.syncPointCount_eq, hcount, hg.reading.sync_point_count,
      hAB.count]
  rw [← hout, dumpSyncEvents, dumpSyncEvents, hloadA, hloadB]
  dsimp only
  rw [hfirst, loop_eventPass_paired hA hAB hB.flagged (hf.paired hg)
    (hg.awaits hB.flagged hB.grouped hB.points) hB.last]

/-- A VMExit and an interrupt, by a reader whose memory holds a vector and one whose memory holds zeros. -/
theorem dumpSyncEvents_formats_cut : ∃ (A : RecordingV2) (B : Recording) (out : Ostream), A.count = 2 ∧
    dumpSyncEvents ⟨false, false, 0, 0, fun _ => (7, .INTERRUPT)⟩ (some A.content) =
        some (.returned, out) ∧
      dumpSyncEvents ⟨false, false, 0, 0, fun _ => (0, .VMENTER)⟩ (some B.content) =
        some (.returned, out) := by
  have hlen : exitThenInterrupt.length ≤ 2 ^ 32 := by decide
  have hlen' : (exitThenInterrupt.map SyncRecordV2.widen).length ≤ 2 ^ 32 := by decide
  have htsc : ∀ r ∈ exitThenInterrupt.map SyncRecordV2.widen, r.tsc ≠ 0 := by decide
  let B := Recording.ofRecords (exitThenInterrupt.map SyncRecordV2.widen) htsc hlen'
  have hflag : B.Flagged := Recording.ofRecords_flagged (by decide)
  have hpoints := Recording.ofRecords_points hflag 0
  have hmade : B.MadeOf [.cut (1, ({ zeroRecordV2 with tsc := 1, type := 0x0a } : SyncRecordV2).widen.decode)
      [(2, ({ zeroRecordV2 with tsc := 2, type := 0x120 } : SyncRecordV2).widen.decode)]] := by
    refine ⟨hflag, .follow (.cut ⟨by decide, by decide, nofun⟩), hpoints, fun g hg => ?_⟩
    cases hg
    rfl
  obtain ⟨out, hA, hB, -⟩ := dumpSyncEvents_formats _ B _ exitThenInterrupt_plain
    (ofRecords_rewrites exitThenInterrupt hlen htsc hlen') hmade
    ⟨false, false, 0, 0, fun _ => (7, .INTERRUPT)⟩ ⟨false, false, 0, 0, fun _ => (0, .VMENTER)⟩
  exact ⟨_, _, out, rfl, hA, hB⟩

end RvnSyncPoint
