import RvnSyncPoint.Sync.Lockstep
import RvnSyncPoint.Sync.Opened

/-!
# Public calls

The calls that a client makes on a loaded reader, as data: `Call.run` makes one, `Call.results` makes a
sequence of them and records what each gave, and `Run` are the runs in which every call returned. What
a relation in lockstep keeps, a call keeps (`Lockstep.run`), and so does every run: a version-3 file
stays open (`Run.opened`), and a recording does (`Run.attached`).
-/

namespace RvnSyncPoint

open LittleEndian Loop StreamableFile

/-- A public call on a reader that is loaded. -/
inductive Call where
  | isValid
  | eof
  | next
  | current
  | currentEvent
  | position
  | advanceTo (position : ℕ)
  | lastValidPosition
  | seekFromEnd (position : ℕ)
  | validate
  | syncPointCount

/-- What a public call returns. -/
inductive Value where
  | unit
  | flag (b : Bool)
  | number (n : ℕ)
  | point (p : SyncPoint)
  | event (e : SyncEvent)

/-- What a call gave to its caller: a value or an exception. -/
def Outcome.result {σ α : Type} : Outcome σ α → Except RuntimeError α
  | .returned a _ => .ok a
  | .thrown err _ => .error err

/-- The outcome with its value changed. -/
def Outcome.map {σ α β : Type} (k : α → β) : Outcome σ α → Outcome σ β
  | .returned a s => .returned (k a) s
  | .thrown err s => .thrown err s

/-- Makes a call. -/
def Call.run (f : SyncFile) : Call → Option (Outcome SyncFile Value)
  | .isValid => some (.returned (.flag f.isValid) f)
  | .eof => some (.returned (.flag f.eof) f)
  | .next => f.next.map fun f => .returned (.point f.current) f
  | .current => some (.returned (.point f.current) f)
  | .currentEvent => f.currentEvent.map (Outcome.map .event)
  | .position => some (.returned (.number f.position) f)
  | .advanceTo q => (f.advanceTo q).map (Outcome.map fun _ => .unit)
  | .lastValidPosition => some (.returned (.number f.last_valid_position) f)
  | .seekFromEnd p => some (.returned .unit (f.seekFromEnd p))
  | .validate => some (.returned .unit f.validate)
  | .syncPointCount => some (.returned (.number f.sync_point_count) f)

/-- A call of `next()` that returns. -/
theorem run_next {f g : SyncFile} (h : f.next = some g) :
    Call.next.run f = some (.returned (.point g.current) g) := by
  rw [show Call.next.run f = f.next.map fun f => .returned (.point f.current) f from rfl, h]
  rfl

/-- A call of `current_event` that returns. -/
theorem run_currentEvent {f g : SyncFile} {e : SyncEvent}
    (h : f.currentEvent = some (.returned e g)) :
    Call.currentEvent.run f = some (.returned (.event e) g) := by
  rw [show Call.currentEvent.run f = f.currentEvent.map (Outcome.map .event) from rfl, h]
  rfl

/-- Makes a sequence of calls, and records what each of them gave. A call that throws does not end the
sequence, but one that does not end does. -/
def Call.results : List Call → SyncFile → Option (List (Except RuntimeError Value))
  | [], _ => some []
  | c :: cs, f => do
    let o ← c.run f
    return o.result :: (← results cs o.state)

/-- A run from `f` to `g`: calls that returned, each one allowed by `ok` in the reader it was made on. -/
inductive Run (ok : SyncFile → Call → Prop) (f : SyncFile) : SyncFile → Prop
  | start : Run ok f f
  | step {g g' : SyncFile} {c : Call} {v : Value} (hrun : Run ok f g) (hok : ok g c)
    (hcall : c.run g = some (.returned v g')) : Run ok f g'

/-! ## Calls in lockstep -/

section

variable {Rel : SyncFile → SyncFile → Prop} {f g : SyncFile}

/-- The rest of what a call looks at is related by `V`. -/
structure Alike (V : Value → Value → Prop) (f g : SyncFile) : Prop where
  event : V (.event f.current_event) (.event g.current_event)
  last_valid_position : V (.number f.last_valid_position) (.number g.last_valid_position)
  sync_point_count : V (.number f.sync_point_count) (.number g.sync_point_count)

/-- A call on two readers in lockstep. -/
theorem Lockstep.run {V : Value → Value → Prop} (L : Lockstep Rel) (hV : ∀ v, V v v)
    (h : Rel f g) (halike : Alike V f g) (c : Call) :
    Option.Rel (Outcome.Rel V Rel) (c.run f) (c.run g) := by
  cases c with
  | isValid =>
    unfold Call.run SyncFile.isValid
    rw [L.file h]
    exact .some (.returned (hV _) h)
  | eof =>
    unfold Call.run
    rw [L.eof h]
    exact .some (.returned (hV _) h)
  | next =>
    refine rel_map (L.next h) fun f g h => ?_
    rw [L.current h]
    exact .returned (hV _) h
  | current =>
    unfold Call.run
    rw [L.current h]
    exact .some (.returned (hV _) h)
  | currentEvent =>
    -- The events are related as the values that they are returned as.
    have hevent := L.currentEvent (Q := fun e e' => V (.event e) (.event e')) (fun e => hV _) h
      fun _ => halike.event
    refine rel_map hevent fun x y hxy => ?_
    cases hxy with
    | returned he h => exact .returned he h
    | thrown h => exact .thrown h
  | position =>
    unfold Call.run
    rw [L.position h]
    exact .some (.returned (hV _) h)
  | advanceTo q =>
    refine rel_map (L.advanceTo q h) fun x y hxy => ?_
    cases hxy with
    | returned he h => exact .returned (hV _) h
    | thrown h => exact .thrown h
  | lastValidPosition => exact .some (.returned halike.last_valid_position h)
  | seekFromEnd p => exact .some (.returned (hV _) (L.seekFromEndTo p h))
  | validate => exact .some (.returned (hV _) (L.validate h))
  | syncPointCount => exact .some (.returned halike.sync_point_count h)

/-- A sequence of calls on two readers in lockstep gives the same results, if they also agree on the
rest of what a call looks at. -/
theorem Lockstep.results (L : Lockstep Rel) (hrel : ∀ {f g}, Rel f g → Alike Eq f g) (cs : List Call) :
    ∀ {f g}, Rel f g → Call.results cs f = Call.results cs g := by
  induction cs with
  | nil => exact fun _ => rfl
  | cons c cs ih =>
    intro f g h
    have hcall := L.run (fun _ => rfl) h (hrel h) c
    unfold Call.results
    generalize c.run f = x, c.run g = y at hcall
    cases hcall with
    | none => rfl
    | some hxy =>
      cases hxy with
      | returned hv h =>
        simp only [Option.bind_eq_bind, Option.bind_some, Outcome.result, Outcome.state, hv, ih h]
      | thrown h => simp only [Option.bind_eq_bind, Option.bind_some, Outcome.result, Outcome.state, ih h]

end

/-! ## Open readers -/

/-- A property of the data file and the current point that reading the data of a point keeps. -/
structure KeptByData (D : StreamableFile → SyncPoint → Prop) : Prop where
  read : ∀ (offset : UInt32) (d : StreamableFile) (c c' : SyncPoint), D d c →
    D (dataAt offset d).2 { c' with data := (dataAt offset d).1 }
  reset : ∀ d c, D d c → D d {}

theorem Healthy.keptByData (dc : List UInt8) : KeptByData fun d _ => Healthy dc d :=
  ⟨fun offset _ _ _ hd => dataAt_healthy hd offset, fun _ _ hd => hd⟩

/-- Without a data file, no point has data. -/
theorem noData_keptByData : KeptByData fun d c => d.eof = true ∧ c.data = [] := by
  refine ⟨?_, fun _ _ h => ⟨h.1, rfl⟩⟩
  rintro offset d c c' ⟨heof, -⟩
  rw [dataAt_eof heof]
  exact ⟨heof, rfl⟩

/-- The reader has the version-3 file `c` open and has `n` records counted in it, and its data file and
current point have the property `D`. -/
def OpenedWith (c : List UInt8) (rs : UInt32) (n : ℕ) (D : StreamableFile → SyncPoint → Prop)
    (f : SyncFile) : Prop :=
  Opened c rs f ∧ f.sync_point_count = n ∧ D f.data_file f.current

section

variable {c : List UInt8} {rs : UInt32} {n : ℕ} {D : StreamableFile → SyncPoint → Prop} {f g : SyncFile}

/-- A pass of the read loop keeps the file open, and the property `D`. -/
theorem OpenedWith.readPass (hD : KeptByData D) (h : OpenedWith c rs n D f) :
    ∃ g, f.readPass = some g ∧ OpenedWith c rs n D g := by
  obtain ⟨⟨hon, hversion, hrs, hle, dc, hdata⟩, hcount, hprop⟩ := h
  have hlt : ¬ f.version < 3 := by rw [hversion]; decide
  have hrecord := readRecordV3_keepsOpen _ _ hon
  have hpad := skipPadding_keepsOpen (f.record_size - 201).toNat _ _ hrecord
  unfold SyncFile.readPass SyncFile.readPoint
  simp only [hlt, if_false, readData_eq hdata, Option.bind_eq_bind, Option.bind_some]
  refine ⟨_, rfl, ?_⟩
  split_ifs
  · exact ⟨⟨hpad, hversion, hrs, hle, dc, dataAt_healthy hdata _⟩, hcount, hD.read _ _ _ _ hprop⟩
  · exact ⟨⟨hpad, hversion, hrs, hle, dc, dataAt_healthy hdata _⟩, hcount, hD.read _ _ _ _ hprop⟩

/-- That a version-3 file is open is kept in lockstep. -/
theorem openedWith_lockstep (hD : KeptByData D) :
    Lockstep fun f g => f = g ∧ OpenedWith c rs n D f where
  file h := by rw [h.1]
  current h := by rw [h.1]
  position h := by rw [h.1]
  record_size h := by rw [h.1]
  is_valid h := by rw [h.1]
  readPass := by
    rintro f _ ⟨rfl, h⟩
    obtain ⟨g, hg, hopened⟩ := h.readPass hD
    rw [hg]
    exact .some ⟨rfl, hopened⟩
  seek := by
    rintro f _ ⟨rfl, ⟨hon, hversion, hrs, hle, hdata⟩, hprop⟩ p
    exact ⟨rfl, ⟨hon.seek_on p, hversion, hrs, hle, hdata⟩, hprop⟩
  seekFromEnd := by
    rintro f _ ⟨rfl, ⟨hon, hversion, hrs, hle, hdata⟩, hprop⟩ p
    exact ⟨rfl, ⟨hon.seekFromEnd_on p, hversion, hrs, hle, hdata⟩, hprop⟩
  resetCurrent := by
    rintro f _ ⟨rfl, ⟨hon, hversion, hrs, hle, hdata⟩, hcount, hprop⟩
    exact ⟨rfl, ⟨hon, hversion, hrs, hle, hdata⟩, hcount, hD.reset _ _ hprop⟩
  setPosition := by
    rintro f _ ⟨rfl, ⟨hon, hversion, hrs, hle, hdata⟩, hprop⟩ p
    exact ⟨rfl, ⟨hon, hversion, hrs, hle, hdata⟩, hprop⟩
  setLast := by
    rintro f _ ⟨rfl, ⟨hon, hversion, hrs, hle, hdata⟩, hprop⟩ l
    exact ⟨rfl, ⟨hon, hversion, hrs, hle, hdata⟩, hprop⟩
  setEvent := by
    rintro f _ ⟨rfl, ⟨hon, hversion, hrs, hle, hdata⟩, hprop⟩ e
    exact ⟨rfl, ⟨hon, hversion, hrs, hle, hdata⟩, hprop⟩

/-- A call that returns keeps the file open. -/
theorem OpenedWith.run (hD : KeptByData D) (h : OpenedWith c rs n D f) {call : Call} {v : Value}
    (hcall : call.run f = some (.returned v g)) : OpenedWith c rs n D g := by
  have hrel := (openedWith_lockstep hD).run (V := fun _ _ => True) (fun _ => trivial)
    (f := f) (g := f) ⟨rfl, h⟩ ⟨trivial, trivial, trivial⟩ call
  rw [hcall] at hrel
  cases hrel with
  | some hxy =>
    cases hxy with
    | returned hv hopened => exact hopened.2

/-- Every run keeps the file open. -/
theorem Run.opened {ok : SyncFile → Call → Prop} (hD : KeptByData D) (hrun : Run ok f g)
    (h : OpenedWith c rs n D f) : OpenedWith c rs n D g := by
  induction hrun with
  | start => exact h
  | step hrun hok hcall ih => exact ih.run hD hcall

end

/-! ## Attached readers -/

/-- The reader has the recording open, and its data file and current point have the property `D`. -/
def AttachedWith (R : Recording) (D : StreamableFile → SyncPoint → Prop) (f : SyncFile) : Prop :=
  Attached R f ∧ D f.data_file f.current

/-- The reader has the recording open, without a data file. -/
def AttachedAlone (R : Recording) (f : SyncFile) : Prop :=
  AttachedWith R (fun d c => d.eof = true ∧ c.data = []) f

section

variable {R : Recording} {D : StreamableFile → SyncPoint → Prop} {f g : SyncFile}

/-- A recording is a version-3 file, all of whose records are counted. -/
theorem attachedWith_iff :
    AttachedWith R D f ↔ OpenedWith R.content R.record_size R.count D f := by
  constructor
  · rintro ⟨⟨hon, hversion, hrs, hcount, hdata⟩, hprop⟩
    exact ⟨⟨hon, hversion, hrs, R.le_record_size, hdata⟩, hcount, hprop⟩
  · rintro ⟨⟨hon, hversion, hrs, -, hdata⟩, hcount, hprop⟩
    exact ⟨⟨hon, hversion, hrs, hcount, hdata⟩, hprop⟩

/-- A pass of the read loop keeps the recording open. -/
theorem AttachedWith.readPass (hD : KeptByData D) (h : AttachedWith R D f) :
    ∃ g, f.readPass = some g ∧ AttachedWith R D g := by
  obtain ⟨g, hpass, hg⟩ := (attachedWith_iff.mp h).readPass hD
  exact ⟨g, hpass, attachedWith_iff.mpr hg⟩

/-- That a recording is open is kept in lockstep. -/
theorem attached_lockstep (hD : KeptByData D) : Lockstep fun f g => f = g ∧ AttachedWith R D f := by
  have hrel : (fun f g => f = g ∧ AttachedWith R D f) =
      fun f g => f = g ∧ OpenedWith R.content R.record_size R.count D f := by
    funext f g
    rw [attachedWith_iff]
  rw [hrel]
  exact openedWith_lockstep hD

/-- A call that returns keeps the recording open. -/
theorem AttachedWith.run (hD : KeptByData D) (h : AttachedWith R D f) {c : Call} {v : Value}
    (hcall : c.run f = some (.returned v g)) : AttachedWith R D g :=
  attachedWith_iff.mpr ((attachedWith_iff.mp h).run hD hcall)

/-- Every run keeps the recording open. -/
theorem Run.attached {ok : SyncFile → Call → Prop} (hD : KeptByData D)
    (hrun : Run ok f g) (h : AttachedWith R D f) : AttachedWith R D g :=
  attachedWith_iff.mpr (hrun.opened hD (attachedWith_iff.mp h))

/-- A new reader on which the recording was loaded has it open, and the data file too. -/
theorem Loaded.attachedWith {data : Option (List UInt8)} (h : Loaded R data f) :
    AttachedWith R (fun d _ => Healthy (data.getD []) d) f := ⟨h.reading.toAttached, h.healthy⟩

/-- Loaded on its own, it has no data. -/
theorem Loaded.attachedAlone (h : Loaded R none f) : AttachedAlone R f :=
  ⟨h.reading.toAttached, h.no_data, by rw [h.fields.2.1]⟩

/-- In every run from a freshly loaded reader, the recording and the data file stay open. -/
theorem Loaded.run {data : Option (List UInt8)} {ok : SyncFile → Call → Prop} (h : Loaded R data f)
    (hrun : Run ok f g) : Attached R g ∧ Healthy (data.getD []) g.data_file :=
  hrun.attached (Healthy.keptByData _) h.attachedWith

end

end RvnSyncPoint
