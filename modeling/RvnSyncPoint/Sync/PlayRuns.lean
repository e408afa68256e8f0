import RvnSyncPoint.Sync.Advance
import RvnSyncPoint.Sync.Dump
import RvnSyncPoint.Sync.PlayEvents

/-!
# Runs of readers that play a log

Each public call in the domain of the player gives its caller what the player says, and keeps the reader
where the player is (`Plays.run`); so does every sequence of calls, on any recording and data file
(`plays_recording`). Nothing about the files but the log that they make can be observed
(`recordings_alike`).
-/

namespace RvnSyncPoint

open LittleEndian Loop Refinement StreamableFile

section

variable {R : Recording} {log : Log} {D : StreamableFile → Prop} {f : SyncFile} {s : Player}

/-! ## Calls -/

/-- A seek to an entry stands on it. -/
theorem Player.seek_position (s : Player) {q : ℕ} (hq : q ≤ log.length) : (s.seek log q).position = q := by
  cases q with
  | zero => rfl
  | succ k => rw [seek, List.getElem?_eq_getElem hq]

/-- A seek that stands on a VMEnter is one to an entry. -/
theorem Player.seek_isVmenter {q : ℕ} (h : (s.seek log q).current.isVmenter = true) :
    q ≤ log.length := by
  cases q with
  | zero => exact Nat.zero_le _
  | succ k =>
    by_contra hlt
    have hzero : (s.seek log (k + 1)).current = zeroPoint 0 := by
      rw [seek, List.getElem?_eq_none (by omega)]
    rw [hzero] at h
    cases h

/-- The loop of `advance_to`. -/
theorem Plays.backToVmexit (hD : Delivers R log D) (q : ℕ) : ∀ f s, Plays R D f s → s.position = q →
    q ≤ log.length → ∃ g, f.backToVmexit q = some g ∧ Plays R D g (s.backToVmexit log q) := by
  -- The induction is on the position, which the loop counts down.
  induction q with
  | zero =>
    intro f s h hpos _
    refine ⟨f, loop_leave ?_, h⟩
    simp [h.position, hpos]
  | succ q ih =>
    intro f s h hpos hq
    have hcount := R.count_lt
    rw [hD.length] at hq
    have hpred : pred64 (q + 1) = q := by
      unfold pred64
      omega
    by_cases hgo : (!s.current.isVmexit && decide (1 < s.position)) = true
    · obtain ⟨g, hg, hplays⟩ := seek_plays hD h.attached h.data h.current_event (q := q)
        (.inl (by rw [hD.length]; omega))
      obtain ⟨g', hg', hplays'⟩ := ih g (s.seek log q) hplays
        (s.seek_position (by rw [hD.length]; omega)) (by rw [hD.length]; omega)
      refine ⟨g', ?_, ?_⟩
      · rw [← hg']
        refine loop_again ?_
        dsimp only
        rw [h.current, h.position, if_pos hgo, hpred, hg]
        rfl
      · rw [Player.backToVmexit, if_pos hgo]
        exact hplays'
    · refine ⟨f, loop_leave ?_, ?_⟩
      · dsimp only
        rw [h.current, h.position, if_neg hgo]
        rfl
      · rw [Player.backToVmexit, if_neg hgo]
        exact h

/-- `advance_to()`. -/
theorem Plays.advanceTo (hD : Delivers R log D) (h : Plays R D f s) {q : ℕ}
    (hok : s.Allows log (.advanceTo q)) :
    Option.Rel (Outcome.Rel Eq (Plays R D)) (f.advanceTo q) (s.advanceTo log q) := by
  obtain ⟨hq, hsettles⟩ := hok
  obtain ⟨g, hg, hplays⟩ := seek_plays hD h.attached h.data h.current_event hq
  unfold Player.advanceTo
  dsimp only
  by_cases hv : q ≠ 0 ∧ (s.seek log q).current.isVmenter = true
  · obtain ⟨h0, hv⟩ := hv
    have hle := Player.seek_isVmenter hv
    obtain ⟨k, hk, hback⟩ := hplays.backToVmexit hD q g _ (s.seek_position hle) hle
    rw [advanceTo_eq h0 hg (hplays.current ▸ hv), hk, if_pos ⟨h0, hv⟩]
    refine rel_map (hback.currentEvent hD (hsettles h0 hv)) fun x y hxy => ?_
    cases hxy with
    | returned _ h => exact .returned rfl h
    | thrown h => exact .thrown h
  · rw [advanceTo_seek hg, if_neg hv]
    · exact .some (.returned rfl hplays)
    · rw [hplays.current]
      by_cases h0 : q = 0
      · exact .inl h0
      · exact .inr (by simpa [h0] using hv)

/-- Every call in the domain of the player gives what the player says, and leaves the reader where the
player is; or it ends in neither. -/
theorem Plays.run (hD : Delivers R log D) (h : Plays R D f s) {c : Call} (hok : s.Allows log c) :
    Option.Rel (Outcome.Rel Eq (Plays R D)) (c.run f) (s.run log c) := by
  cases c with
  | isValid =>
    rw [Call.run, Player.run, SyncFile.isValid, h.attached.on.opened]
    exact .some (.returned rfl h)
  | eof =>
    rw [Call.run, Player.run, h.eof]
    exact .some (.returned rfl h)
  | next =>
    obtain ⟨g, hg, hplays⟩ := h.next hD
    rw [run_next hg, Player.run, hplays.current]
    exact .some (.returned rfl hplays)
  | current =>
    rw [Call.run, Player.run, h.current]
    exact .some (.returned rfl h)
  | currentEvent =>
    refine rel_map (h.currentEvent hD hok) fun x y hxy => ?_
    cases hxy with
    | returned he h => exact .returned (by rw [he]) h
    | thrown h => exact .thrown h
  | position =>
    rw [Call.run, Player.run, h.position]
    exact .some (.returned rfl h)
  | advanceTo q =>
    refine rel_map (h.advanceTo hD hok) fun x y hxy => ?_
    cases hxy with
    | returned _ h => exact .returned rfl h
    | thrown h => exact .thrown h
  | lastValidPosition =>
    rw [Call.run, Player.run, h.last_valid_position]
    exact .some (.returned rfl h)
  | seekFromEnd p => exact .some (.returned rfl (h.seekFromEnd hD hok))
  | validate => exact .some (.returned rfl h.validate)
  | syncPointCount =>
    rw [Call.run, Player.run, h.attached.sync_point_count, hD.length]
    exact .some (.returned rfl h)

end

/-! ## Runs -/

/-- The reader as a machine. -/
def Call.answer (f : SyncFile) (c : Call) : Option (Except RuntimeError Value × SyncFile) :=
  (c.run f).map fun o => (o.result, o.state)

theorem Call.results_eq (cs : List Call) : ∀ f, Call.results cs f = answers Call.answer cs f := by
  induction cs with
  | nil => exact fun _ => rfl
  | cons c cs ih =>
    intro f
    rw [Call.results, answers, Call.answer]
    cases c.run f with
    | none => rfl
    | some o =>
      rw [Option.map_some, Option.bind_some, ← ih o.state]
      exact (Option.map_eq_bind ..).symm

/-- The log that a recording makes with a data file. -/
def Recording.log (R : Recording) (data : Option (List UInt8)) : Log :=
  (R.recordsFrom 0).map fun r => (r.bare, data.elim [] fun dc => blocksAt dc r.data_offset)

/-- Reading the data file, if there is one, does not lose data: the lists of blocks end inside it, or
there are none. -/
def Recording.DataSafe (R : Recording) (data : Option (List UInt8)) : Prop :=
  HasDataMagic data ∧ ∀ dc ∈ data, R.AllTerminated dc ∨ R.NoneHasData dc

section

variable {R S : Recording} {data data' : Option (List UInt8)}

theorem Recording.log_entry (R : Recording) (data : Option (List UInt8)) {k : ℕ} (hk : k < R.count) :
    (R.log data)[k]? = some ((R.record (k + 1)).bare,
      data.elim [] fun dc => blocksAt dc (R.record (k + 1)).data_offset) := by
  have hindex : (List.range' (0 + 1) (R.count - 0))[k]? = some (k + 1) := by
    rw [List.getElem?_range' (by omega)]
    congr 1
    omega
  rw [log, recordsFrom, List.getElem?_map, List.getElem?_map, hindex]
  rfl

/-- The data file delivers the blocks of the log, from the state in which `load` leaves it. -/
theorem Recording.exists_delivers (h : R.DataSafe data) : ∃ D, Delivers R (R.log data) D ∧
    ∀ f, Loaded R data f → D f.data_file := by
  have hlength : (R.log data).length = R.count := by simp [log, recordsFrom]
  cases data with
  | none =>
    refine ⟨fun d => d.eof = true, ⟨hlength, fun k hk => ⟨_, R.log_entry none hk, fun d hd => ?_⟩⟩,
      fun f hf => hf.no_data⟩
    rw [dataAt_eof hd]
    exact ⟨rfl, hd⟩
  | some dc =>
    refine ⟨DataReady R dc, ⟨hlength, fun k hk => ⟨_, R.log_entry (some dc) hk, fun d hd => ?_⟩⟩,
      fun f hf => .inl ⟨8, hf.data_file (h.1 dc rfl)⟩⟩
    exact hd.dataAt (h.2 dc rfl) (Nat.le_add_left 1 k) hk

/-- A new reader loads the recording with its data file, and then plays the log from the beginning. -/
theorem Recording.exists_plays (h : R.DataSafe data) (u : Uninitialised) : ∃ D f,
    (SyncFile.new u).load (some R.content) data = .returned true f ∧ Delivers R (R.log data) D ∧
      Plays R D f {} := by
  obtain ⟨D, hD, hloaded⟩ := exists_delivers h
  obtain ⟨f, hload⟩ : ∃ f, (SyncFile.new u).load (some R.content) data = .returned true f := by
    cases data with
    | none => exact (Loaded.exists_no_data R u).imp fun f h => h.2
    | some dc =>
      have hload := load_recording R (.new u) (some dc)
      rw [loadData_magic (h.1 dc rfl)] at hload
      exact ⟨_, hload⟩
  have hf : Loaded R data f := ⟨u, hload⟩
  obtain ⟨hpos, hcur, hev, hlast⟩ := hf.fields
  exact ⟨D, f, hload, hD, fun _ => hf.reading, nofun, hpos, hcur, hev, hlast, hloaded f hf,
    fun _ hv => by cases hv⟩

/-- The reader simulates the player. -/
theorem Delivers.simulates {log : Log} {D : StreamableFile → Prop} (hD : Delivers R log D) :
    Simulates Eq Call.answer (Player.answer log) (Player.Allows log) (Plays R D) := by
  intro f s c h hok
  refine rel_map (h.run hD hok) fun x y hxy => ?_
  cases hxy with
  | returned hv h => exact ⟨congrArg Except.ok hv, h⟩
  | thrown h => exact ⟨rfl, h⟩

/-- A recording and its data file are played as the log that they make: in every sequence of public calls
that stays in the domain of the player, the new reader on which they were loaded gives what the player
gives, call for call. -/
theorem plays_recording (R : Recording) (data : Option (List UInt8)) (hdata : R.DataSafe data)
    (u : Uninitialised) (cs : List Call)
    (hcs : Within (Player.answer (R.log data)) (Player.Allows (R.log data)) cs {}) :
    ∃ f, (SyncFile.new u).load (some R.content) data = .returned true f ∧
      Call.results cs f = answers (Player.answer (R.log data)) cs {} := by
  obtain ⟨D, f, hload, hD, hplays⟩ := Recording.exists_plays hdata u
  exact ⟨f, hload, by rw [Call.results_eq, hD.simulates.answers_eq cs f {} hplays hcs]⟩

/-- The log of a recording that was written alone. -/
theorem Recording.ofRecords_log {rs : List SyncRecord} {htsc : ∀ r ∈ rs, r.tsc ≠ 0}
    {hlen : rs.length ≤ 2 ^ 32} : (ofRecords rs htsc hlen).log none = rs.map fun r => (r.bare, []) := by
  rw [log, ofRecords_recordsFrom]
  rfl

/-- An event of the recording `effectAtEnd`, without a data file, and the last of its points. -/
theorem plays_recording_effectAtEnd : ∃ f,
    (SyncFile.new ⟨false, false, 0, 0, fun _ => (0, .VMENTER)⟩).load (some effectAtEnd.content) none =
        .returned true f ∧
      Call.results [.next, .currentEvent, .seekFromEnd 0, .next] f =
        answers (Player.answer (effectAtEnd.log none)) [.next, .currentEvent, .seekFromEnd 0, .next] {} := by
  refine plays_recording effectAtEnd none ⟨nofun, nofun⟩ _ _ ?_
  rw [effectAtEnd, Recording.ofRecords_log]
  refine ⟨trivial, ?_⟩
  rintro x ⟨⟩
  refine ⟨fun _ => ?_, ?_⟩
  · -- The event of the first record is not looked past.
    have hstay : Tape.current 3 (1, .simple 0xff 1 7 5)
        [(2, .simple 0 2 7 5), (3, .simple 0xff 3 8 5)] =
        .stay (Tape.headEvent (1, .simple 0xff 1 7 5)) (1, .simple 0xff 1 7 5) _ :=
      Tape.settle_stay (e := Tape.headEvent (1, .simple 0xff 1 7 5)) rfl
    change ¬ (Tape.current 3 (1, .simple 0xff 1 7 5)
      [(2, .simple 0 2 7 5), (3, .simple 0xff 3 8 5)]).Lost False
    rw [hstay]
    exact id
  · rintro y hy
    refine ⟨?_, fun z hz => ⟨trivial, fun _ _ => trivial⟩⟩
    exact show 0 < 3 by decide

/-- Two recordings with the same log cannot be told apart by public calls in the domain of the player:
neither the size of a record, nor what the header and the padding hold, nor where the data file has the
blocks makes a difference. -/
theorem recordings_alike (R S : Recording) (data data' : Option (List UInt8)) (hR : R.DataSafe data)
    (hS : S.DataSafe data') (hlog : R.log data = S.log data') (u v : Uninitialised) (cs : List Call)
    (hcs : Within (Player.answer (R.log data)) (Player.Allows (R.log data)) cs {}) :
    ∃ f g, (SyncFile.new u).load (some R.content) data = .returned true f ∧
      (SyncFile.new v).load (some S.content) data' = .returned true g ∧
      Call.results cs f = Call.results cs g := by
  obtain ⟨D, f, hf, hD, hplays⟩ := Recording.exists_plays hR u
  obtain ⟨D', g, hg, hD', hplays'⟩ := Recording.exists_plays hS v
  rw [← hlog] at hD'
  refine ⟨f, g, hf, hg, ?_⟩
  rw [Call.results_eq, Call.results_eq, hD.simulates.answers_eq cs f {} hplays hcs,
    hD'.simulates.answers_eq cs g {} hplays' hcs]

/-- A data file with nothing but an end marker, and none. -/
theorem recordings_alike_marker : ∃ f g,
    (SyncFile.new ⟨false, false, 0, 0, fun _ => (0, .VMENTER)⟩).load (some oneDataRecord.content) none =
        .returned true f ∧
      (SyncFile.new ⟨true, false, 7, 1, fun _ => (1, .INTERRUPT)⟩).load (some oneDataRecord.content)
        (some (dataFile [0, 0, 0, 0])) = .returned true g ∧
      Call.results [.next, .advanceTo 0, .next] f = Call.results [.next, .advanceTo 0, .next] g := by
  have hnone : (blocksAt (dataFile [0, 0, 0, 0]) 8) = [] :=
    (blocksAt_eq_nil 8).mpr (.inr (leAt_dataFile _ 0 4))
  refine recordings_alike oneDataRecord oneDataRecord none (some (dataFile [0, 0, 0, 0]))
    ⟨nofun, nofun⟩ ⟨?_, ?_⟩ ?_ _ _ _ ?_
  · rintro dc ⟨⟩
    exact List.prefix_append _ _
  · rintro dc ⟨⟩
    refine .inr fun k h1 hk => .inr ?_
    obtain rfl : k = 1 := Nat.le_antisymm hk h1
    rw [oneDataRecord_record]
    exact leAt_dataFile _ 0 4
  · have hrecords : oneDataRecord.recordsFrom 0 =
        [{ SyncRecord.simple 0xff 1 0 0 with data_offset := 8 }] := Recording.ofRecords_recordsFrom
    rw [Recording.log, Recording.log, hrecords]
    show [(_, [])] = [(_, blocksAt (dataFile [0, 0, 0, 0]) 8)]
    rw [hnone]
  · exact ⟨trivial, fun _ _ => ⟨⟨.inl (Nat.zero_le _), fun h => absurd rfl h⟩, fun _ _ =>
      ⟨trivial, fun _ _ => trivial⟩⟩⟩

end

end RvnSyncPoint
