import RvnSyncPoint.Sync.Merge

/-!
# Where `current_event` goes back

The loop of `current_event` goes back by a seek where an event without effect does not merge with the
next one. Which events these are, and to which position it goes, is told by the records ahead of the
reader (`SyncFile.GoesBack`): those that it passes over, up to a VMExit and its end with the same
registers which the next VMExit does not match, or between which an instruction is emulated. For a call
that returns, the records say exactly what the loop does (`seeksInEvent_iff`).

The readers are arbitrary, as for the merges.
-/

namespace RvnSyncPoint

open Loop StreamableFile

/-! ## What the loop does -/

/-- The position that the loop of `current_event`, on the event `e`, goes back to. -/
inductive SyncFile.SeeksAhead : SyncEvent → SyncFile → ℕ → Prop
  | here {e e_next : SyncEvent} {f g : SyncFile} (heffect : e.withoutEffect = true)
    (hfetch : f.fetchNewEvent = some (.returned e_next g)) (hmerge : e.mergesWith e_next = false) :
    SeeksAhead e f (pred64 e_next.position)
  | later {e e_next : SyncEvent} {f g : SyncFile} {k : ℕ} (heffect : e.withoutEffect = true)
    (hfetch : f.fetchNewEvent = some (.returned e_next g)) (hmerge : e.mergesWith e_next = true)
    (rest : SeeksAhead { e_next with start_context := e.start_context } g k) : SeeksAhead e f k

/-- The position that `current_event` goes back to. -/
def SyncFile.SeeksInEvent (f : SyncFile) (k : ℕ) : Prop :=
  (f.current_event.is_valid || f.eof) = false ∧
    ∃ e g, f.fetchNewEvent = some (.returned e g) ∧ g.SeeksAhead e k

/-! ## What the records say -/

/-- The position of the next event: that of its VMExit, or 1 if the VMExit of the first record is
missing, or 0 if the file ends before. -/
def SyncFile.positionAhead (f : SyncFile) : ℕ :=
  match f.vmexitAhead with
  | some k => k.position
  | none => if !f.current.isVmexit && f.position == 1 then 1 else 0

/-- From `f`, the reader comes upon a VMExit, which is not the first record, and at once upon its end with
the same registers, and an instruction is emulated in between. It is left on the end, as `g`. -/
inductive SyncFile.TakesEmulated (f g : SyncFile) : Prop
  | pair {k : SyncFile} (hexit : f.vmexitAhead = some k) (hpos : k.position ≠ 1)
    (hnext : k.next = some g) (hvalid : g.current.valid = true)
    (hvmenter : g.current.isVmenter = true) (hsame : k.current.SameValues g.current)
    (hemulated : ¬ k.current.NotEmulated g.current)

/-- From `f`, the reader passes over records up to a VMExit and its end with the same registers, and
goes back to the position `k`, the one before the next event: the next VMExit has other registers or
another RIP, or an instruction is emulated in between. -/
inductive SyncFile.GoesBack : SyncFile → ℕ → Prop
  | other {f g : SyncFile} {v m : SyncPoint} (htakes : f.Takes v m g) (hsame : v.SameValues m)
    (hother : ¬ (m.SameValues g.startAhead ∧ v.rip = g.startAhead.rip)) :
    GoesBack f (pred64 g.positionAhead)
  | emulated {f g : SyncFile} (htakes : f.TakesEmulated g) : GoesBack f (pred64 g.positionAhead)
  | later {f g : SyncFile} {v m : SyncPoint} {k : ℕ} (hover : f.PassesOver v m g)
    (rest : GoesBack g k) : GoesBack f k

/-- `current_event` looks ahead, and the records make it go back to the position `k`. -/
def SyncFile.EventGoesBack (f : SyncFile) (k : ℕ) : Prop :=
  (f.current_event.is_valid || f.eof) = false ∧ f.GoesBack k

section

variable {own e e' e_next : SyncEvent} {f g h i : SyncFile} {j k : ℕ}

/-! ## One loop -/

/-- After a merge, the loop of `current_event` goes back where it goes back from there. -/
theorem SyncFile.seeksAhead_merge_iff (heffect : e.withoutEffect = true)
    (hfetch : f.fetchNewEvent = some (.returned e_next g)) (hmerge : e.mergesWith e_next = true)
    (k : ℕ) : f.SeeksAhead e k ↔ g.SeeksAhead { e_next with start_context := e.start_context } k := by
  constructor
  · intro h
    cases h with
    | here _ hfetch' hmerge' =>
      rw [hfetch] at hfetch'
      cases hfetch'
      rw [hmerge] at hmerge'
      cases hmerge'
    | later _ hfetch' _ rest =>
      rw [hfetch] at hfetch'
      cases hfetch'
      exact rest
  · exact .later heffect hfetch hmerge

/-- A loop goes back to at most one position. -/
theorem SyncFile.SeeksAhead.unique (hj : f.SeeksAhead e j) (hk : f.SeeksAhead e k) : j = k := by
  induction hj with
  | here heffect hfetch hmerge =>
    cases hk with
    | here _ hfetch' _ =>
      rw [hfetch] at hfetch'
      cases hfetch'
      rfl
    | later _ hfetch' hmerge' _ =>
      rw [hfetch] at hfetch'
      cases hfetch'
      rw [hmerge] at hmerge'
      cases hmerge'
  | later heffect hfetch hmerge rest ih =>
    exact ih ((SyncFile.seeksAhead_merge_iff heffect hfetch hmerge k).mp hk)

theorem SyncFile.SeeksInEvent.unique (hj : f.SeeksInEvent j) (hk : f.SeeksInEvent k) : j = k := by
  obtain ⟨-, e, g, hfetch, hj⟩ := hj
  obtain ⟨-, e', g', hfetch', hk⟩ := hk
  rw [hfetch] at hfetch'
  cases hfetch'
  exact hj.unique hk

/-! ## The events and the records -/

/-- The position of an event is that of the records ahead. -/
theorem fetchNewEvent_position (ho : f.fetchNewEvent = some (.returned e g)) :
    e.position = f.positionAhead := by
  unfold SyncFile.positionAhead
  rcases fetchNewEvent_returned ho with ⟨hnone, hfirst, hpos, -⟩ | ⟨hnone, hfirst, -, rfl⟩ |
    ⟨k, i, hexit, -, hends⟩
  · rw [hnone, hfirst]
    exact hpos
  · rw [hnone, hfirst]
    rfl
  · rw [hexit]
    rcases hends with ⟨-, -, rfl⟩ | ⟨-, hbody⟩
    · rfl
    · exact (fetchBody_returned hbody).1.position

/-- An event without effect in which an instruction is emulated ends on the VMEnter after its VMExit. -/
theorem emulated_of_fetch (ho : f.fetchNewEvent = some (.returned e g))
    (heffect : e.withoutEffect = true) (hem : e.is_instruction_emulation = true) :
    f.TakesEmulated g := by
  obtain ⟨hpos, hint, hvalues⟩ := e.withoutEffect_iff.mp heffect
  rcases fetchNewEvent_returned ho with ⟨-, -, h1, -⟩ | ⟨-, -, -, rfl⟩ | ⟨k, i, hexit, hi, hends⟩
  · exact absurd h1 hpos
  · cases hem
  · rcases hends with ⟨-, -, rfl⟩ | ⟨hvalid, hbody⟩
    · cases hem
    · obtain ⟨-, hbody⟩ := fetchBody_returned hbody
      obtain ⟨rfl, hvmenter, rfl⟩ := hbody hint
      refine .pair hexit hpos hi hvalid hvmenter hvalues fun hplain => ?_
      have hnot : ((SyncEvent.start k.position k.current).addData g.current).emulation
          g.current.rip = false := (SyncPoint.notEmulated_iff k.position _ _).mp hplain
      rw [show ((SyncEvent.start k.position k.current).addData g.current).emulation g.current.rip =
        true from hem] at hnot
      cases hnot

/-- Such records make such an event. -/
theorem fetch_of_emulated (h : f.TakesEmulated g) :
    ∃ e, f.fetchNewEvent = some (.returned e g) ∧ e.withoutEffect = true ∧
      e.is_instruction_emulation = true := by
  obtain @⟨i, hexit, hpos, hnext, hvalid, hvmenter, hsame, hemulated⟩ := h
  obtain ⟨hfirst, hskip⟩ := SyncFile.vmexitAhead_some hexit
  have hbody := fetchBody_vmenter (e := .start i.position i.current) hvmenter rfl
  refine ⟨((SyncEvent.start i.position i.current).addData g.current).finished g.current, ?_,
    (SyncEvent.withoutEffect_iff _).mpr ⟨hpos, rfl, hsame⟩, ?_⟩
  · unfold SyncFile.fetchNewEvent
    simp [hfirst, hskip, hnext, hvalid, hbody]
  · apply Bool.eq_true_of_not_eq_false
    exact fun hem => hemulated ((SyncPoint.notEmulated_iff i.position _ _).mpr hem)

/-! ## Along the loop -/

/-- Where the loop goes back, the records say so. The induction carries along that the event of the loop
is the one that was fetched, up to its start. -/
theorem SyncFile.SeeksAhead.goesBack (hk : g.SeeksAhead e k)
    (hfetch : f.fetchNewEvent = some (.returned own g)) (hown : own.UpToStart e) : f.GoesBack k := by
  induction hk generalizing f own with
  | @here e b g i heffect hnext hmerge =>
    rw [hown.withoutEffect] at heffect
    rw [hown.mergesWith] at hmerge
    rw [fetchNewEvent_position hnext]
    obtain ⟨hpos, hint, -⟩ := own.withoutEffect_iff.mp heffect
    cases hem : own.is_instruction_emulation with
    | true => exact .emulated (emulated_of_fetch hfetch heffect hem)
    | false =>
      obtain ⟨v, m, htakes, hspans⟩ := takes_of_fetch hfetch hpos hint hem
      refine .other htakes (hspans.withoutEffect_iff.mp heffect) fun hagain => ?_
      rw [(hspans.mergesWith_iff hnext).mpr hagain] at hmerge
      cases hmerge
  | later heffect hnext hmerge rest ih =>
    obtain ⟨v, m, hover, -⟩ := passesOver_of_merge hown hfetch heffect hnext hmerge
    exact .later hover (ih hnext (SyncEvent.UpToStart.merge heffect hmerge))

/-- Where the records make a loop that returns go back, it does. -/
theorem SyncFile.GoesBack.seeksAhead (hk : f.GoesBack k)
    (hfetch : f.fetchNewEvent = some (.returned own g)) (hown : own.UpToStart e)
    (hloop : loop SyncFile.mergePass (e, g) = some (.returned e' h)) : g.SeeksAhead e k := by
  induction hk generalizing own e g with
  | other htakes hsame hother =>
    obtain ⟨own', hfetch', hspans⟩ := fetch_of_takes htakes
    rw [hfetch] at hfetch'
    cases hfetch'
    have heffect : e.withoutEffect = true := by
      rw [hown.withoutEffect]
      exact hspans.withoutEffect_iff.mpr hsame
    obtain ⟨b, i, hnext⟩ := mergePass_fetches heffect hloop
    have hmerge : e.mergesWith b = false := by
      rw [hown.mergesWith]
      exact Bool.eq_false_of_not_eq_true (mt (hspans.mergesWith_iff hnext).mp hother)
    rw [← fetchNewEvent_position hnext]
    exact .here heffect hnext hmerge
  | emulated htakes =>
    obtain ⟨own', hfetch', heffect, hem⟩ := fetch_of_emulated htakes
    rw [hfetch] at hfetch'
    cases hfetch'
    rw [← hown.withoutEffect] at heffect
    obtain ⟨b, i, hnext⟩ := mergePass_fetches heffect hloop
    have hmerge : e.mergesWith b = false := by
      rw [hown.mergesWith]
      apply Bool.eq_false_of_not_eq_true
      intro hmerge
      rw [((own.mergesWith_iff b).mp hmerge).2.2] at hem
      cases hem
    rw [← fetchNewEvent_position hnext]
    exact .here heffect hnext hmerge
  | later hover rest ih =>
    obtain ⟨rfl, -, heffect, b, i, hnext, hmerge⟩ := hover.merges hfetch hown hloop
    rw [mergePass_merge heffect hnext hmerge] at hloop
    exact .later heffect hnext hmerge (ih hnext (SyncEvent.UpToStart.merge heffect hmerge) hloop)

/-! ## Calls -/

theorem SyncFile.SeeksInEvent.goesBack (hk : f.SeeksInEvent k) : f.EventGoesBack k := by
  obtain ⟨hfresh, e, g, hfetch, hk⟩ := hk
  exact ⟨hfresh, hk.goesBack hfetch (.refl e)⟩

/-- A call that returns goes back exactly where the records say. -/
theorem seeksInEvent_iff (hreturns : f.currentEvent = some (.returned e g)) (k : ℕ) :
    f.SeeksInEvent k ↔ f.EventGoesBack k := by
  refine ⟨fun hk => hk.goesBack, fun ⟨hfresh, hk⟩ => ?_⟩
  obtain ⟨own, h, hfetch, e', i, hloop⟩ := currentEvent_returned hfresh hreturns
  exact ⟨hfresh, own, h, hfetch, hk.seeksAhead hfetch (.refl own) hloop⟩

end

end RvnSyncPoint
