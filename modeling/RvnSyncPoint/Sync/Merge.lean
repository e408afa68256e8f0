import RvnSyncPoint.Sync.Groups
import RvnSyncPoint.Sync.Interrupts

/-!
# Merging events

`current_event` absorbs events without effect into the next one. Both of its comparisons are
`are_values_equivalent`, which does not look at the FPU fields of the contexts. So along a chain of
merges, of any length, nothing but the TSC changes exactly when the FPU fields of the records that the
call looks past do not (`dropsNoChange_iff`). That the start of each event on the chain was replaced by
the one of the first does not matter, as the values are those of its own start.

The readers are arbitrary: nothing is asked of the file, nor of the calls made before.
-/

namespace RvnSyncPoint

open Loop StreamableFile

/-! ## Contexts -/

/-- The contexts agree on every field but the TSC. -/
def Context.SameButTsc (c d : Context) : Prop := { c with tsc := 0 } = { d with tsc := 0 }

/-- The contexts agree on the FPU fields. -/
def Context.SameFpu (c d : Context) : Prop :=
  c.fpu_sw = d.fpu_sw ∧ c.fpu_cw = d.fpu_cw ∧ c.fpu_tags = d.fpu_tags

/-- Besides the FPU fields, `are_values_equivalent` looks at every field but the TSC. -/
theorem Context.sameButTsc_iff (c d : Context) :
    c.SameButTsc d ↔ c.values = d.values ∧ c.SameFpu d := by
  simp only [SameButTsc, SameFpu, values, Context.mk.injEq]
  tauto

/-! ## The merges of a call -/

/-- The loop of `current_event` absorbs the event `a` into the event `b`, as both were fetched. The loop
is on the event `e`, which was fetched as `own`, and `f` is the reader after it. -/
inductive SyncFile.Absorbs : SyncEvent → SyncEvent → SyncFile → SyncEvent → SyncEvent → Prop
  | here {own e b : SyncEvent} {f g : SyncFile} (heffect : e.withoutEffect = true)
    (hfetch : f.fetchNewEvent = some (.returned b g)) (hmerge : e.mergesWith b = true) :
    Absorbs own e f own b
  | later {own e e_next a b : SyncEvent} {f g : SyncFile} (heffect : e.withoutEffect = true)
    (hfetch : f.fetchNewEvent = some (.returned e_next g)) (hmerge : e.mergesWith e_next = true)
    (rest : Absorbs e_next (e.merge e_next) g a b) : Absorbs own e f a b

/-- `current_event` on `f` absorbs `a` into `b`. -/
def SyncFile.CallAbsorbs (f : SyncFile) (a b : SyncEvent) : Prop :=
  (f.current_event.is_valid || f.eof) = false ∧
    ∃ e g, f.fetchNewEvent = some (.returned e g) ∧ SyncFile.Absorbs e e g a b

/-- Each event that `current_event` absorbs has no effect, and leaves the context that the event which
absorbs it starts with. -/
def SyncFile.DropsNoChange (f : SyncFile) : Prop :=
  ∀ a b, f.CallAbsorbs a b →
    a.start_context.SameButTsc a.new_context ∧ a.new_context.SameButTsc b.start_context

/-! ## The records of a call -/

/-- The reader on the VMExit of the next event. There is none if the file ends before, or if the VMExit
of the first record is missing. -/
def SyncFile.vmexitAhead (f : SyncFile) : Option SyncFile :=
  if !f.current.isVmexit && f.position == 1 then none
  else match f.skipToVmexit false with
    | some (.inr k) => some k
    | _ => none

/-- The point that the next event starts with: its VMExit, or zeros if there is none. -/
def SyncFile.startAhead (f : SyncFile) : SyncPoint :=
  match f.vmexitAhead with
  | some k => k.current
  | none => {}

/-- From `f`, the reader comes upon the VMExit `v`, which is not the first record, and at once upon its
end `m`, with no instruction emulated in between. It is left on `m`, as `g`. Where the file ends, the
points are zeros. -/
inductive SyncFile.Takes (f : SyncFile) : SyncPoint → SyncPoint → SyncFile → Prop
  | pair {k g : SyncFile} (hexit : f.vmexitAhead = some k) (hpos : k.position ≠ 1)
    (hnext : k.next = some g) (hvalid : g.current.valid = true)
    (hvmenter : g.current.isVmenter = true) (hplain : k.current.NotEmulated g.current) :
    Takes f k.current g.current g
  | cut {k g : SyncFile} (hexit : f.vmexitAhead = some k) (hpos : k.position ≠ 1)
    (hnext : k.next = some g) (hvalid : g.current.valid = false) : Takes f k.current {} g
  | nothing {g : SyncFile} (hfirst : (!f.current.isVmexit && f.position == 1) = false)
    (hend : f.skipToVmexit false = some (.inl g)) : Takes f {} {} g

/-- From `f`, the reader passes over the VMExit `v` and its end `m`: the registers are the same, and so
are those of the next VMExit and its RIP. -/
structure SyncFile.PassesOver (f : SyncFile) (v m : SyncPoint) (g : SyncFile) : Prop where
  takes : f.Takes v m g
  same : v.SameValues m
  again : m.SameValues g.startAhead
  rip : v.rip = g.startAhead.rip

/-- On its way from `f`, the reader passes over the VMExit `v` and its end `m`, and `w` is the next
VMExit. -/
inductive SyncFile.LooksPast : SyncFile → SyncPoint → SyncPoint → SyncPoint → Prop
  | here {f g : SyncFile} {v m : SyncPoint} (h : f.PassesOver v m g) : LooksPast f v m g.startAhead
  | later {f g : SyncFile} {v m v' m' w : SyncPoint} (h : f.PassesOver v m g)
    (rest : LooksPast g v' m' w) : LooksPast f v' m' w

/-- The records that `current_event` looks past agree on the FPU fields, and with the next VMExit. -/
def SyncFile.KeepsFpu (f : SyncFile) : Prop :=
  (f.current_event.is_valid || f.eof) = false → ∀ v m w, f.LooksPast v m w →
    v.context.SameFpu m.context ∧ m.context.SameFpu w.context

section

variable {own e e' a b : SyncEvent} {f g i k : SyncFile} {v m w : SyncPoint}

/-- The registers that `are_values_equivalent` compares do not change along the records. -/
theorem SyncFile.LooksPast.sameValues (h : f.LooksPast v m w) : v.SameValues m ∧ m.SameValues w := by
  induction h with
  | here h => exact ⟨h.same, h.again⟩
  | later h rest ih => exact ih

/-! ## The events that are fetched -/

/-- An event with an interrupt keeps its start. -/
theorem fetchInterrupt_start (ho : i.fetchInterrupt e = some (.returned e' g)) :
    e.SameStart e' ∧ e'.has_interrupt = true := by
  obtain ⟨j, -, ho⟩ := Option.bind_eq_some_iff.mp ho
  split_ifs at ho with hvalid hint hequiv
  · cases ho
    exact ⟨⟨rfl, rfl, rfl, rfl, rfl⟩, rfl⟩
  · cases ho
  · obtain ⟨z, -, ho⟩ := Option.bind_eq_some_iff.mp ho
    split_ifs at ho with hend
    · cases ho
      exact ⟨⟨rfl, rfl, rfl, rfl, rfl⟩, rfl⟩
    · obtain ⟨-, -, -, rfl⟩ := fetchAfterInterrupt_returned (Option.some.inj ho)
      exact ⟨⟨rfl, rfl, rfl, rfl, rfl⟩, rfl⟩
  · obtain ⟨-, -, -, rfl⟩ := fetchAfterInterrupt_returned (Option.some.inj ho)
    exact ⟨⟨rfl, rfl, rfl, rfl, rfl⟩, rfl⟩

/-- An event keeps its start, and without an interrupt it ends on the point after its VMExit. -/
theorem fetchBody_returned (ho : i.fetchBody e = some (.returned e' g)) :
    e.SameStart e' ∧ (e'.has_interrupt = false →
      g = i ∧ i.current.isVmenter = true ∧ e' = (e.addData i.current).finished i.current) := by
  unfold SyncFile.fetchBody at ho
  dsimp only at ho
  split_ifs at ho with hint
  · obtain ⟨hstart, hinterrupt⟩ := fetchInterrupt_start ho
    refine ⟨⟨hstart.1, hstart.2, hstart.3, hstart.4, hstart.5⟩, fun hno => ?_⟩
    rw [hinterrupt] at hno
    cases hno
  · unfold SyncFile.fetchVmenter at ho
    cases hfinish : (e.addData i.current).finish i.current i.position with
    | error err =>
      rw [hfinish] at ho
      cases ho
    | ok e'' =>
      rw [hfinish] at ho
      cases ho
      obtain ⟨hvmenter, rfl⟩ := SyncEvent.finish_ok hfinish
      exact ⟨⟨rfl, rfl, rfl, rfl, rfl⟩, fun _ => ⟨rfl, hvmenter, rfl⟩⟩

/-- Without an interrupt, a VMEnter on the point after the VMExit ends the event. -/
theorem fetchBody_vmenter (hvmenter : i.current.isVmenter = true)
    (hint : (e.addData i.current).has_interrupt = false) :
    i.fetchBody e = some (.returned ((e.addData i.current).finished i.current) i) := by
  unfold SyncFile.fetchBody SyncFile.fetchVmenter
  rw [Tape.isInterrupt_of_isVmenter hvmenter]
  have hsane : ((e.addData i.current).finished i.current).checkSanity = .ok () := by
    simp [SyncEvent.checkSanity, SyncEvent.finished, hint]
  simp [SyncEvent.finish_eq hvmenter hsane]

/-- How `fetch_new_event` returns: the VMExit of the first record is missing, or the file ends before a
VMExit, or right after it, or the event goes on. -/
theorem fetchNewEvent_returned (ho : f.fetchNewEvent = some (.returned e g)) :
    (f.vmexitAhead = none ∧ (!f.current.isVmexit && f.position == 1) = true ∧ e.position = 1 ∧
      e.start_context = {} ∧ e.start_rip = 0) ∨
    (f.vmexitAhead = none ∧ (!f.current.isVmexit && f.position == 1) = false ∧
      f.skipToVmexit false = some (.inl g) ∧ e = {}) ∨
    ∃ k i, f.vmexitAhead = some k ∧ k.next = some i ∧
      ((i.current.valid = false ∧ g = i ∧ e = (SyncEvent.start k.position k.current).last) ∨
        (i.current.valid = true ∧
          i.fetchBody (.start k.position k.current) = some (.returned e g))) := by
  unfold SyncFile.vmexitAhead
  unfold SyncFile.fetchNewEvent at ho
  cases hfirst : (!f.current.isVmexit && f.position == 1) with
  | true =>
    -- The loop that looks for a VMExit leaves at once.
    have hskip : SyncFile.skipToVmexit true f = some (.inr f) := loop_leave (by simp)
    simp only [hfirst, hskip, Option.bind_eq_bind, Option.bind_some, if_true] at ho
    obtain ⟨hstart, -⟩ := fetchBody_returned ho
    have hpos : f.position = 1 := by simpa using (Bool.and_eq_true_iff.mp hfirst).2
    exact .inl ⟨rfl, rfl, hstart.position.trans hpos, hstart.start_context, hstart.start_rip⟩
  | false =>
    rw [hfirst] at ho
    obtain ⟨r, hr, ho⟩ := Option.bind_eq_some_iff.mp ho
    rw [hr]
    cases r with
    | inl l =>
      cases ho
      exact .inr (.inl ⟨rfl, rfl, rfl, rfl⟩)
    | inr l =>
      obtain ⟨i, hi, ho⟩ := Option.bind_eq_some_iff.mp ho
      refine .inr (.inr ⟨l, i, rfl, hi, ?_⟩)
      split_ifs at ho with hvalid
      · cases ho
        exact .inl ⟨by simpa using hvalid, rfl, rfl⟩
      · exact .inr ⟨by simpa using hvalid, ho⟩

/-- An event starts with the registers and the RIP of the VMExit ahead. -/
theorem fetchNewEvent_start (ho : f.fetchNewEvent = some (.returned e g)) :
    e.start_context = f.startAhead.context ∧ e.start_rip = f.startAhead.rip := by
  unfold SyncFile.startAhead
  rcases fetchNewEvent_returned ho with ⟨hnone, -, -, hctx, hrip⟩ | ⟨hnone, -, -, rfl⟩ |
    ⟨k, i, hexit, -, hends⟩
  · rw [hnone]
    exact ⟨hctx, hrip⟩
  · rw [hnone]
    exact ⟨rfl, rfl⟩
  · rw [hexit]
    rcases hends with ⟨-, -, rfl⟩ | ⟨-, hbody⟩
    · exact ⟨rfl, rfl⟩
    · obtain ⟨hstart, -⟩ := fetchBody_returned hbody
      exact ⟨hstart.start_context, hstart.start_rip⟩

/-- The event `e` goes from the VMExit `v` to its end `m`, without an interrupt or an emulated
instruction, and not at the first record. -/
structure SyncEvent.Spans (e : SyncEvent) (v m : SyncPoint) : Prop where
  position : e.position ≠ 1
  has_interrupt : e.has_interrupt = false
  emulation : e.is_instruction_emulation = false
  start_context : e.start_context = v.context
  start_rip : e.start_rip = v.rip
  new_context : e.new_context = m.context

/-- An event without interrupt and emulated instruction is made of the records that the reader takes. -/
theorem takes_of_fetch (ho : f.fetchNewEvent = some (.returned e g)) (hpos : e.position ≠ 1)
    (hint : e.has_interrupt = false) (hplain : e.is_instruction_emulation = false) :
    ∃ v m, f.Takes v m g ∧ e.Spans v m := by
  rcases fetchNewEvent_returned ho with ⟨-, -, h1, -⟩ | ⟨-, hfirst, hend, rfl⟩ |
    ⟨k, i, hexit, hi, hends⟩
  · exact absurd h1 hpos
  · exact ⟨{}, {}, .nothing hfirst hend, ⟨hpos, hint, hplain, rfl, rfl, rfl⟩⟩
  · rcases hends with ⟨hvalid, rfl, rfl⟩ | ⟨hvalid, hbody⟩
    · exact ⟨k.current, {}, .cut hexit hpos hi hvalid, ⟨hpos, rfl, rfl, rfl, rfl, rfl⟩⟩
    · obtain ⟨-, hbody⟩ := fetchBody_returned hbody
      obtain ⟨rfl, hvmenter, rfl⟩ := hbody hint
      have hplain' : k.current.NotEmulated g.current :=
        (SyncPoint.notEmulated_iff k.position _ _).mpr hplain
      exact ⟨k.current, g.current, .pair hexit hpos hi hvalid hvmenter hplain',
        ⟨hpos, rfl, hplain, rfl, rfl, rfl⟩⟩

/-- A VMExit ahead is the one that is skipped to. -/
theorem SyncFile.vmexitAhead_some (h : f.vmexitAhead = some k) :
    (!f.current.isVmexit && f.position == 1) = false ∧ f.skipToVmexit false = some (.inr k) := by
  unfold vmexitAhead at h
  split_ifs at h with hfirst
  split at h
  · rename_i l hl
    cases h
    exact ⟨by simpa using hfirst, hl⟩
  · cases h

/-- Fetching an event from the records that the reader takes. -/
theorem fetch_of_takes (h : f.Takes v m g) :
    ∃ e, f.fetchNewEvent = some (.returned e g) ∧ e.Spans v m := by
  cases h with
  | @pair k g hexit hpos hnext hvalid hvmenter hplain =>
    obtain ⟨hfirst, hskip⟩ := SyncFile.vmexitAhead_some hexit
    have hplain' := (SyncPoint.notEmulated_iff k.position _ _).mp hplain
    have hbody := fetchBody_vmenter (e := .start k.position k.current) hvmenter rfl
    refine ⟨((SyncEvent.start k.position k.current).addData g.current).finished g.current, ?_,
      ⟨hpos, rfl, hplain', rfl, rfl, rfl⟩⟩
    unfold SyncFile.fetchNewEvent
    simp [hfirst, hskip, hnext, hvalid, hbody]
  | @cut k g hexit hpos hnext hvalid =>
    obtain ⟨hfirst, hskip⟩ := SyncFile.vmexitAhead_some hexit
    refine ⟨(SyncEvent.start k.position k.current).last, ?_, ⟨hpos, rfl, rfl, rfl, rfl, rfl⟩⟩
    unfold SyncFile.fetchNewEvent
    simp [hfirst, hskip, hnext, hvalid]
  | nothing hfirst hend =>
    refine ⟨{}, ?_, ⟨by decide, rfl, rfl, rfl, rfl, rfl⟩⟩
    unfold SyncFile.fetchNewEvent
    simp [hfirst, hend]

/-! ## Along the merges -/

/-- An event that spans records with the same registers has no effect. -/
theorem SyncEvent.Spans.withoutEffect_iff (h : e.Spans v m) :
    e.withoutEffect = true ↔ v.SameValues m := by
  rw [SyncEvent.withoutEffect_iff, h.start_context, h.new_context]
  exact ⟨fun hw => hw.2.2, fun hv => ⟨h.position, h.has_interrupt, hv⟩⟩

/-- It is matched at the same time as the next event, if this one starts with the same registers and
RIP. -/
theorem SyncEvent.Spans.mergesWith_iff (h : e.Spans v m)
    (hnext : g.fetchNewEvent = some (.returned b k)) :
    e.mergesWith b = true ↔ m.SameValues g.startAhead ∧ v.rip = g.startAhead.rip := by
  obtain ⟨hctx, hrip⟩ := fetchNewEvent_start hnext
  rw [SyncEvent.mergesWith_iff, h.new_context, h.start_rip, hctx, hrip]
  exact ⟨fun hm => ⟨hm.1, hm.2.1⟩, fun hs => ⟨hs.1, hs.2, h.emulation⟩⟩

/-- An event that the loop absorbs into the next one is made of records that the reader passes over. It
is fetched as `own`, and the loop has it with another start, which has the same values. -/
theorem passesOver_of_merge (hown : own.UpToStart e)
    (hfetch : f.fetchNewEvent = some (.returned own g)) (heffect : e.withoutEffect = true)
    (hnext : g.fetchNewEvent = some (.returned b k)) (hmerge : e.mergesWith b = true) :
    ∃ v m, f.PassesOver v m g ∧ own.Spans v m := by
  rw [hown.withoutEffect] at heffect
  rw [hown.mergesWith] at hmerge
  obtain ⟨hpos, hint, -⟩ := own.withoutEffect_iff.mp heffect
  obtain ⟨-, -, hplain⟩ := (own.mergesWith_iff b).mp hmerge
  obtain ⟨v, m, htakes, hspans⟩ := takes_of_fetch hfetch hpos hint hplain
  obtain ⟨hagain, hrip⟩ := (hspans.mergesWith_iff hnext).mp hmerge
  exact ⟨v, m, ⟨htakes, hspans.withoutEffect_iff.mp heffect, hagain, hrip⟩, hspans⟩

/-- The events absorbed are made of the records that the reader looks past. The induction carries along
that the event of the loop is the one that was fetched, up to its start. -/
theorem SyncFile.Absorbs.looksPast (h : SyncFile.Absorbs own e g a b)
    (hfetch : f.fetchNewEvent = some (.returned own g)) (hown : own.UpToStart e) :
    ∃ v m w, f.LooksPast v m w ∧ a.start_context = v.context ∧ a.new_context = m.context ∧
      b.start_context = w.context := by
  induction h generalizing f with
  | here heffect hnext hmerge =>
    obtain ⟨v, m, hover, hspans⟩ := passesOver_of_merge hown hfetch heffect hnext hmerge
    obtain ⟨hctx, -⟩ := fetchNewEvent_start hnext
    exact ⟨v, m, _, .here hover, hspans.start_context, hspans.new_context, hctx⟩
  | later heffect hnext hmerge rest ih =>
    obtain ⟨v, m, hover, -⟩ := passesOver_of_merge hown hfetch heffect hnext hmerge
    obtain ⟨v', m', w, hlooks, hrest⟩ := ih hnext (SyncEvent.UpToStart.merge heffect hmerge)
    exact ⟨v', m', w, .later hover hlooks, hrest⟩

/-- A loop that returns from an event without effect fetches the next one. -/
theorem mergePass_fetches (heffect : e.withoutEffect = true)
    (hloop : loop SyncFile.mergePass (e, g) = some (.returned e' k)) :
    ∃ b h, g.fetchNewEvent = some (.returned b h) := by
  cases hfetch : g.fetchNewEvent with
  | none =>
    rw [loop_none (by simp [SyncFile.mergePass, heffect, hfetch])] at hloop
    cases hloop
  | some o =>
    cases o with
    | thrown err h =>
      rw [loop_leave (r := .thrown err h) (by simp [SyncFile.mergePass, heffect, hfetch])] at hloop
      cases hloop
    | returned b h => exact ⟨b, h, rfl⟩

/-- Records that the reader passes over make an event that the loop absorbs into the next one. -/
theorem SyncFile.PassesOver.merges {g' : SyncFile} (h : f.PassesOver v m g')
    (hfetch : f.fetchNewEvent = some (.returned own g)) (hown : own.UpToStart e)
    (hloop : loop SyncFile.mergePass (e, g) = some (.returned e' k)) :
    g' = g ∧ own.Spans v m ∧ e.withoutEffect = true ∧
      ∃ b l, g.fetchNewEvent = some (.returned b l) ∧ e.mergesWith b = true := by
  obtain ⟨own', hfetch', hspans⟩ := fetch_of_takes h.takes
  rw [hfetch] at hfetch'
  cases hfetch'
  -- The tests of the loop are those that the records were passed over for.
  have heffect : e.withoutEffect = true := by
    rw [hown.withoutEffect]
    exact hspans.withoutEffect_iff.mpr h.same
  obtain ⟨b, l, hnext⟩ := mergePass_fetches heffect hloop
  refine ⟨rfl, hspans, heffect, b, l, hnext, ?_⟩
  rw [hown.mergesWith]
  exact (hspans.mergesWith_iff hnext).mpr ⟨h.again, h.rip⟩

/-- The records that the reader looks past make events that are absorbed, if the loop returns. -/
theorem SyncFile.LooksPast.absorbs (h : f.LooksPast v m w)
    (hfetch : f.fetchNewEvent = some (.returned own g)) (hown : own.UpToStart e)
    (hloop : loop SyncFile.mergePass (e, g) = some (.returned e' k)) :
    ∃ a b, SyncFile.Absorbs own e g a b ∧ a.start_context = v.context ∧
      a.new_context = m.context ∧ b.start_context = w.context := by
  induction h generalizing own e g with
  | here h =>
    obtain ⟨rfl, hspans, heffect, b, l, hnext, hmerge⟩ := h.merges hfetch hown hloop
    obtain ⟨hctx, -⟩ := fetchNewEvent_start hnext
    exact ⟨own, b, .here heffect hnext hmerge, hspans.start_context, hspans.new_context, hctx⟩
  | later h rest ih =>
    obtain ⟨rfl, -, heffect, b, l, hnext, hmerge⟩ := h.merges hfetch hown hloop
    rw [mergePass_merge heffect hnext hmerge] at hloop
    obtain ⟨a, b', hrest, hctx⟩ := ih hnext (SyncEvent.UpToStart.merge heffect hmerge) hloop
    exact ⟨a, b', .later heffect hnext hmerge hrest, hctx⟩

/-- A call that returns, and not from the cache, fetches an event and leaves its loop. -/
theorem currentEvent_returned (hfresh : (f.current_event.is_valid || f.eof) = false)
    (hreturns : f.currentEvent = some (.returned e g)) :
    ∃ own h, f.fetchNewEvent = some (.returned own h) ∧
      ∃ e' k, loop SyncFile.mergePass (own, h) = some (.returned e' k) := by
  unfold SyncFile.currentEvent at hreturns
  rw [hfresh] at hreturns
  obtain ⟨o, ho, hreturns⟩ := Option.bind_eq_some_iff.mp hreturns
  cases o with
  | thrown err h => cases hreturns
  | returned own h =>
    obtain ⟨o', ho', hreturns⟩ := Option.bind_eq_some_iff.mp hreturns
    cases o' with
    | thrown err k => cases hreturns
    | returned e' k => exact ⟨own, h, ho, e', k, ho'⟩

end

/-- The merges of a call that returns drop no change of a context but that of the TSC, exactly when the
records that it looks past have the same FPU fields. -/
theorem dropsNoChange_iff (f : SyncFile) (hreturns : ∃ e g, f.currentEvent = some (.returned e g)) :
    f.DropsNoChange ↔ f.KeepsFpu := by
  obtain ⟨e, g, hreturns⟩ := hreturns
  constructor
  · intro h hfresh v m w hlooks
    obtain ⟨own, i, hfetch, e', k, hloop⟩ := currentEvent_returned hfresh hreturns
    obtain ⟨a, b, habsorbs, hstart, hnew, hnext⟩ := hlooks.absorbs hfetch (.refl own) hloop
    obtain ⟨heffect, hmerge⟩ := h a b ⟨hfresh, own, i, hfetch, habsorbs⟩
    rw [hstart, hnew] at heffect
    rw [hnew, hnext] at hmerge
    exact ⟨((Context.sameButTsc_iff _ _).mp heffect).2, ((Context.sameButTsc_iff _ _).mp hmerge).2⟩
  · intro h a b hab
    obtain ⟨hfresh, own, i, hfetch, habsorbs⟩ := hab
    obtain ⟨v, m, w, hlooks, hstart, hnew, hnext⟩ := habsorbs.looksPast hfetch (.refl own)
    obtain ⟨hsame, hagain⟩ := hlooks.sameValues
    obtain ⟨hfpu, hfpu'⟩ := h hfresh v m w hlooks
    rw [hstart, hnew, hnext]
    exact ⟨(Context.sameButTsc_iff _ _).mpr ⟨hsame, hfpu⟩,
      (Context.sameButTsc_iff _ _).mpr ⟨hagain, hfpu'⟩⟩

/-- A recording of two events. The first only changes the FPU status word, and the second RAX. -/
def fpuEffect : Recording :=
  .ofRecords [.simple 0xff 1 5 7, .simple 1 2 5 7, { SyncRecord.simple 0xff 3 5 7 with fpu_sw := 1 },
    { SyncRecord.simple 1 4 5 7 with fpu_sw := 1 }, { SyncRecord.simple 0xff 5 6 7 with fpu_sw := 1 }]
    (by decide) (by decide)

/-- A point of the recording after the change. -/
def fpuEffectPoint (type : UInt16) (tsc rax : UInt64) : SyncPoint :=
  { SyncPoint.simple type tsc rax 7 with fpu_sw := 1 }

/-- The first event. -/
def fpuEvent : SyncEvent :=
  ((SyncEvent.start 2 (.simple 1 2 5 7)).addData (fpuEffectPoint 0xff 3 5)).finished
    (fpuEffectPoint 0xff 3 5)

/-- The second event. -/
def raxEvent : SyncEvent :=
  ((SyncEvent.start 4 (fpuEffectPoint 1 4 5)).addData (fpuEffectPoint 0xff 5 6)).finished
    (fpuEffectPoint 0xff 5 6)

/-- The first event is absorbed, and the call returns. -/
theorem fpuEffect_absorbs {f : SyncFile} (hf : Loaded fpuEffect none f) :
    f.CallAbsorbs fpuEvent raxEvent ∧ ∃ e g, f.currentEvent = some (.returned e g) := by
  obtain ⟨hpos, hcur, hevent, -⟩ := hf.fields
  have htape : fpuEffect.tape f = [(1, .simple 0xff 1 5 7), (2, .simple 1 2 5 7),
      (3, fpuEffectPoint 0xff 3 5), (4, fpuEffectPoint 1 4 5), (5, fpuEffectPoint 0xff 5 6)] :=
    Recording.ofRecords_tape hf
  have hafter := hf.reading.after
  rw [hpos, hcur, htape] at hafter
  have hc : f.current_event.is_valid = false := by rw [hevent]
  -- The two events are fetched one after the other.
  obtain ⟨o, ho, hgives⟩ := fetchNewEvent_spec hafter hc
  have hfetch : Tape.fetch (0, {}) [(1, .simple 0xff 1 5 7), (2, .simple 1 2 5 7),
      (3, fpuEffectPoint 0xff 3 5), (4, fpuEffectPoint 1 4 5), (5, fpuEffectPoint 0xff 5 6)] =
      .complete fpuEvent (3, fpuEffectPoint 0xff 3 5)
        [(4, fpuEffectPoint 1 4 5), (5, fpuEffectPoint 0xff 5 6)] := rfl
  rw [hfetch] at hgives
  obtain ⟨g, rfl, hg, hsame⟩ : ∃ g, o = .returned fpuEvent g ∧ fpuEffect.After g
      [(3, fpuEffectPoint 0xff 3 5), (4, fpuEffectPoint 1 4 5), (5, fpuEffectPoint 0xff 5 6)] ∧
      SameCache f g := by
    cases hgives with
    | complete h hc => exact ⟨_, rfl, h, hc⟩
  obtain ⟨o', ho', hgives'⟩ := fetchNewEvent_spec hg (hsame.1 ▸ hc)
  have hfetch' : Tape.fetch (3, fpuEffectPoint 0xff 3 5)
      [(4, fpuEffectPoint 1 4 5), (5, fpuEffectPoint 0xff 5 6)] =
      .complete raxEvent (5, fpuEffectPoint 0xff 5 6) [] := rfl
  rw [hfetch'] at hgives'
  obtain ⟨k, rfl⟩ : ∃ k, o' = .returned raxEvent k := by
    cases hgives' with
    | complete h hc => exact ⟨_, rfl⟩
  have heffect : fpuEvent.withoutEffect = true := by decide
  have hmerge : fpuEvent.mergesWith raxEvent = true := by decide
  have hfresh : (f.current_event.is_valid || f.eof) = false := by
    rw [hc, hf.reading.eof]
    rfl
  have hloop : loop SyncFile.mergePass (fpuEvent, g) =
      some (.returned (fpuEvent.merge raxEvent) k) := by
    rw [mergePass_merge heffect ho' hmerge]
    exact mergePass_stay (by decide)
  have hcall := currentEvent_of_fetch hf.reading.eof hc ho
  rw [hloop] at hcall
  exact ⟨⟨hfresh, fpuEvent, g, ho, .here heffect ho' hmerge⟩, _, _, hcall⟩

/-- The change of the status word is lost. -/
theorem fpuEffect_drops {f : SyncFile} (hf : Loaded fpuEffect none f) : ¬ f.DropsNoChange := by
  intro hdrops
  obtain ⟨heffect, -⟩ := hdrops _ _ (fpuEffect_absorbs hf).1
  have hsw := congrArg Context.fpu_sw heffect
  exact absurd hsw (by decide)

/-- The two events are made of records that do not agree on the FPU fields. -/
theorem dropsNoChange_iff_fpuEffect : ∃ f, Loaded fpuEffect none f ∧ ¬ f.KeepsFpu := by
  obtain ⟨f, hf⟩ : ∃ f, Loaded fpuEffect none f := Recording.ofRecords_loaded
  have hiff := dropsNoChange_iff f (fpuEffect_absorbs hf).2
  exact ⟨f, hf, fun hkeeps => fpuEffect_drops hf (hiff.mpr hkeeps)⟩

/-- The merges of a call that returns can lose a change of the FPU fields. -/
theorem not_dropsNoChange : ¬ ∀ (R : Recording) (data : Option (List UInt8)) (f : SyncFile),
    Loaded R data f → (∃ e g, f.currentEvent = some (.returned e g)) → f.DropsNoChange := by
  intro halways
  obtain ⟨f, hf⟩ : ∃ f, Loaded fpuEffect none f := Recording.ofRecords_loaded
  exact fpuEffect_drops hf (halways fpuEffect none f hf (fpuEffect_absorbs hf).2)

end RvnSyncPoint
