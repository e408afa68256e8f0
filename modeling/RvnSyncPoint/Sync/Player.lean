import RvnSyncPoint.Refinement
import RvnSyncPoint.Sync.Calls
import RvnSyncPoint.Sync.LookAhead

/-!
# Playing a log

What a sync file reader is for, without files: a `Log` is the sequence of records with the blocks of data
attached to each, and a `Player` goes back and forth in it. It does not know of bytes, of streams and
their flags, or of offsets: what it would return is the tape of its log (`Player.rest`), and its events are
those that settling makes of the tape. `Player.answer` is the machine that it is, and `Player.Allows` its domain:
the calls that stay in the log, and look ahead to an event that there is.
-/

namespace RvnSyncPoint

/-- A log: records, each with the blocks of data attached to it. The data offsets of the records are not
looked at. -/
abbrev Log := List (SyncRecord × List SyncPointData)

namespace Log

/-- The points after the point `c` at the position `p`, each with its position: the entries, less those
identical to the point before them. -/
def tape : ℕ → SyncPoint → Log → Tape
  | _, _, [] => []
  | p, c, (r, bs) :: log =>
    let c' := r.point c bs
    if c.operatorEq c' then tape (p + 1) c log else (p + 1, c') :: tape (p + 1) c' log

/-- The interrupt vector that the current point has after all entries, if it was `v` before them: only
an interrupt's type word has one. -/
def lastVector (v : UInt8) (log : Log) : UInt8 :=
  log.foldl (fun v x => if isIrq x.1.type then irqByte x.1.type else v) v

end Log

/-- A player of a log, on its current point. -/
structure Player where
  position : ℕ := 0
  current : SyncPoint := {}
  /-- The end of the log was met. -/
  ended : Bool := false
  current_event : SyncEvent := {}
  last_valid_position : ℕ := 0

namespace Player

variable (log : Log) (s : Player)

/-- The points to come. -/
def rest : Tape := Log.tape s.position s.current (log.drop s.position)

/-- The player on the point `x`. -/
def on (x : ℕ × SyncPoint) : Player := { s with position := x.1, current := x.2 }

/-- The player at the end of the log. -/
def atEnd : Player :=
  { s with
    position := log.length, ended := true
    current := zeroPoint (Log.lastVector s.current.interrupt_vector (log.drop s.position)) }

/-- Forgets the current event. -/
def dropEvent : Player := { s with current_event := s.current_event.dropped }

/-- `next()`. -/
def next : Player :=
  if s.ended then s
  else match s.rest log with
    | [] => (s.atEnd log).dropEvent
    | x :: _ => (s.on x).dropEvent

/-- Goes to an entry, or before the first one, or past the last one. -/
def seek : ℕ → Player
  | 0 => { s with position := 0, current := {}, ended := false, last_valid_position := 0 }
  | k + 1 => match log[k]? with
    | some (r, bs) => { s.dropEvent with
        position := k + 1, current := r.point {} bs, ended := false, last_valid_position := k }
    | none => { s.dropEvent with
        position := k, current := zeroPoint 0, ended := true, last_valid_position := k - 1 }

/-- `seek_from_end()`, which goes before the entry that `p` others follow. -/
def seekFromEnd (p : ℕ) : Player :=
  { s with
    position := log.length - (p + 1), current := {}, ended := false, last_valid_position := p }

/-- `validate()`. -/
def validate : Player := { s with last_valid_position := s.position }

/-- How the player ends a call of `current_event` that settles as `z`. It does not say where the
look-ahead ends when there is no event to come. -/
def settled : Settled → Option (Outcome Player SyncEvent)
  | .hang | .offEnd _ => none
  | .thrown err x _ => some (.thrown err (s.on x))
  | .stay e x _ => some (.returned e { s.on x with current_event := e })
  | .atEnd e => some (.returned e { s.atEnd log with current_event := e })
  | .back e q => some (.returned e { s.seek log (q - 1) with current_event := e })

/-- What `current_event` settles on. -/
def settling : Settled := Tape.current log.length (s.position, s.current) (s.rest log)

/-- `current_event()`. -/
def currentEvent : Option (Outcome Player SyncEvent) :=
  if s.current_event.is_valid || s.ended then some (.returned s.current_event s)
  else s.settled log (s.settling log)

/-- Goes back from the entry `q` to the last VMExit up to it, or to the first entry if there is none. -/
def backToVmexit : ℕ → Player → Player
  | 0, s => s
  | q + 1, s =>
    if !s.current.isVmexit && 1 < s.position then backToVmexit q (s.seek log q) else s

/-- `advance_to()`. -/
def advanceTo (q : ℕ) : Option (Outcome Player Unit) :=
  let s := s.seek log q
  if q ≠ 0 ∧ s.current.isVmenter = true then
    ((s.backToVmexit log q).currentEvent log).map (Outcome.map fun _ => ())
  else some (.returned () s)

/-- Makes a call. -/
def run (s : Player) : Call → Option (Outcome Player Value)
  | .isValid => some (.returned (.flag true) s)
  | .eof => some (.returned (.flag s.ended) s)
  | .next => some (.returned (.point (s.next log).current) (s.next log))
  | .current => some (.returned (.point s.current) s)
  | .currentEvent => (s.currentEvent log).map (Outcome.map .event)
  | .position => some (.returned (.number s.position) s)
  | .advanceTo q => (s.advanceTo log q).map (Outcome.map fun _ => .unit)
  | .lastValidPosition => some (.returned (.number s.last_valid_position) s)
  | .seekFromEnd p => some (.returned .unit (s.seekFromEnd log p))
  | .validate => some (.returned .unit s.validate)
  | .syncPointCount => some (.returned (.number log.length) s)

/-! ## The domain -/

/-- A look-ahead of `current_event` finds an event. -/
def Settles : Prop :=
  (s.current_event.is_valid || s.ended) = false → ¬ (s.settling log).Lost False

/-- The call is in the domain: the position is one of the log, or past its end by less than would
overflow a file offset, and `current_event` finds an event if it looks ahead. -/
def Allows (s : Player) : Call → Prop
  | .currentEvent => s.Settles log
  | .advanceTo q => (q ≤ log.length ∨ q ≤ 2 ^ 30) ∧ (q ≠ 0 → (s.seek log q).current.isVmenter = true →
      ((s.seek log q).backToVmexit log q).Settles log)
  | .seekFromEnd p => p < log.length
  | _ => True

/-- The player as a machine. -/
def answer (s : Player) (c : Call) : Option (Except RuntimeError Value × Player) :=
  (s.run log c).map fun o => (o.result, o.state)

end Player

end RvnSyncPoint
