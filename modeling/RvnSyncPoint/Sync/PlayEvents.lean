import RvnSyncPoint.Sync.Plays

/-!
# Events of readers that play a log

`current_event` on a reader that plays a log gives the event that the player settles on, and leaves the
reader where the player is (`Plays.currentEvent`). The event and the place are those of its specification
in terms of the tape. What `next()` carries along is still there when the loop of `current_event` leaves,
or it was there when the loop sought back (`Settled.Keeps`).
-/

namespace RvnSyncPoint

open LittleEndian Loop StreamableFile

section

variable {R : Recording} {log : Log} {D : StreamableFile → Prop} {v : UInt8} {f g : SyncFile}
  {s : Player} {e : SyncEvent} {x : ℕ × SyncPoint} {T : Tape}

/-- A property that is carried along by `next()` holds of the reader that a call of `current_event`
leaves, unless it was lost; or of a reader that the call seeks back from at last. -/
def Settled.Keeps (P : SyncFile → Prop) : Settled → Option (Outcome SyncFile SyncEvent) → Prop
  | .back e q, o => ∃ g k, P g ∧ g.seek (q - 1) = some k ∧
      o = some (.returned e { k with current_event := e })
  | .offEnd _, _ => True
  | _, o => ∀ o' ∈ o, P o'.state

section keeps

variable {P : SyncFile → Prop} (hP : KeptByNext P) (hkeep : ∀ f e, P f → P { f with current_event := e })
include hkeep

/-- Where the loop leaves without a seek. -/
theorem keeps_loop {z : Settled} {o : Outcome SyncFile SyncEvent}
    (hz : ∀ o, (∀ o' ∈ o, P o'.state) → z.Keeps P o)
    (ho : loop SyncFile.mergePass (e, f) = some o) (h : P o.state) :
    z.Keeps P ((loop SyncFile.mergePass (e, f)).map SyncFile.keep) := by
  apply hz
  rw [ho]
  rintro o' ⟨⟩
  cases o with
  | thrown err g => exact h
  | returned e g => exact hkeep g e h

omit hkeep in
/-- Where the loop seeks back from an event at a record of the file. -/
theorem keeps_back {e' : SyncEvent} (he : e.withoutEffect = true)
    (hfetch : f.fetchNewEvent = some (.returned e' g)) (hm : e.mergesWith e' = false) (h : P g)
    (hatt : Attached R g) (hc : g.current_event.is_valid = false) (h2 : 2 ≤ e'.position)
    (hle : e'.position ≤ R.count) :
    (Settled.back e e'.position).Keeps P ((loop SyncFile.mergePass (e, f)).map SyncFile.keep) := by
  obtain ⟨k, hk, -⟩ := seek_back (e := e) hatt hc h2 hle
  have hpred : pred64 e'.position = e'.position - 1 := by
    have hcount := R.count_lt
    unfold pred64
    omega
  refine ⟨g, k, h, by rw [← hpred, hk], ?_⟩
  rw [mergePass_seek he hfetch hm hk]
  rfl

/-- The loop on an event that the end of the file cuts. -/
theorem settleCut_keeps (h : R.After f []) (hc : f.current_event.is_valid = false)
    (h2 : e.withoutEffect = true → 2 ≤ R.count) (hf : P f) :
    (Tape.settleCut R.count e).Keeps P ((loop SyncFile.mergePass (e, f)).map SyncFile.keep) := by
  have hfetch := fetchNewEvent_ended h.1
  rw [h.2] at hfetch
  unfold Tape.settleCut
  split_ifs with he hm
  · rw [mergePass_hang h.1 (by have := h2 he; rw [h.2]; omega) he hm]
    exact fun _ h => nomatch h
  · exact keeps_back he hfetch (by simpa using hm) hf h.attached hc (h2 he) le_rfl
  · exact keeps_loop hkeep (fun _ h => h) (mergePass_stay (by simpa using he)) hf

include hP

/-- The loop on a complete event. The induction is along settling, as for its specification. -/
theorem settle_keeps (h : R.After f (x :: T)) (hc : f.current_event.is_valid = false)
    (hx : x.2.isVmexit = false) (h2 : e.withoutEffect = true → 2 ≤ x.1) (hf : P f) :
    (Tape.settle R.count e x T).Keeps P ((loop SyncFile.mergePass (e, f)).map SyncFile.keep) := by
  induction e, x, T using Tape.settle_induction generalizing f with
  | stay e x T he =>
    rw [Tape.settle_stay he]
    exact keeps_loop hkeep (fun _ h => h) (mergePass_stay he) hf
  | nothing e x T he hfetch =>
    obtain ⟨o, ho, hgives⟩ := lookAhead_spec h hc hx (h2 he)
    rw [hfetch] at hgives
    rw [Tape.settle_nothing he hfetch]
    cases hgives with
    | nothing hend hsame =>
      have hgives := settle_spec_nothing h he (h2 he) ho hend
      split_ifs with hm
      · rw [if_pos hm] at hgives
        generalize loop SyncFile.mergePass (e, f) = o at hgives
        cases hgives
        exact fun _ h => nomatch h
      · trivial
  | malformed e x T err y U he hfetch =>
    obtain ⟨o, ho, hgives⟩ := lookAhead_spec h hc hx (h2 he)
    have hg := hP.fetchNewEvent hf ho
    rw [hfetch] at hgives
    rw [Tape.settle_malformed he hfetch]
    cases hgives with
    | @malformed g _ _ _ hafter hsame =>
      have hleave : loop SyncFile.mergePass (e, f) = some (.thrown err g) :=
        loop_leave (by simp [SyncFile.mergePass, he, ho])
      exact keeps_loop hkeep (fun _ h => h) hleave hg
  | cut e x T e' he hfetch =>
    obtain ⟨o, ho, hgives⟩ := lookAhead_spec h hc hx (h2 he)
    have hg := hP.fetchNewEvent hf ho
    rw [hfetch] at hgives
    obtain ⟨pre, v, mid, hT, -, -, hcut, -⟩ := Tape.fetchVmexit_cut hfetch
    have hpos : e'.position = v.1 := hcut.position
    obtain ⟨hlt, -, hle, -⟩ := h.mem_tape (y := v) (by simp [hT])
    have h2x := h2 he
    rw [Tape.settle_cut he hfetch]
    cases hgives with
    | cut hend hsame =>
      split_ifs with hm
      · rw [mergePass_merge he ho hm]
        exact settleCut_keeps hkeep hend (hsame.1 ▸ hc) (fun _ => by omega) hg
      · exact keeps_back he ho (by simpa using hm) hg hend.attached (hsame.1 ▸ hc) (by omega) (by omega)
  | back e x T e' y U he hfetch hm =>
    obtain ⟨o, ho, hgives⟩ := lookAhead_spec h hc hx (h2 he)
    have hg := hP.fetchNewEvent hf ho
    rw [hfetch] at hgives
    obtain ⟨pre, v, mid, hT, -, -, -, hends⟩ := Tape.fetchVmexit_complete hfetch
    have hpos : e'.position = v.1 := hends.position
    obtain ⟨hlt, -, hle, -⟩ := h.mem_tape (y := v) (by simp [hT])
    have h2x := h2 he
    rw [Tape.settle_back he hfetch hm]
    cases hgives with
    | complete hafter hsame =>
      exact keeps_back he ho hm hg hafter.attached (hsame.1 ▸ hc) (by omega) (by omega)
  | merge e x T e' y U he hfetch hm ih =>
    obtain ⟨o, ho, hgives⟩ := lookAhead_spec h hc hx (h2 he)
    have hg := hP.fetchNewEvent hf ho
    rw [hfetch] at hgives
    obtain ⟨pre, v, mid, hT, -, -, hy, hends⟩ := Tape.fetchVmexit_complete hfetch
    obtain ⟨hlt, -⟩ := h.mem_tape (y := y) (by simp [hT])
    have h2x := h2 he
    rw [Tape.settle_merge he hfetch hm]
    cases hgives with
    | complete hafter hsame =>
      rw [mergePass_merge he ho hm]
      exact ih hafter (hsame.1 ▸ hc) (Tape.isVmexit_of_isVmenter hy) (fun _ => by omega) hg

/-- `current_event` without a cached event. -/
theorem current_keeps (h : R.After f (x :: T)) (hc : f.current_event.is_valid = false)
    (hx : x.2.isVmexit = true → 1 ≤ x.1) (hf : P f) :
    (Tape.current R.count x T).Keeps P f.currentEvent := by
  obtain ⟨o, ho, hgives⟩ := fetchNewEvent_spec h hc
  have hg := hP.fetchNewEvent hf ho
  have heof := h.1.eof
  by_cases hmissing : (!x.2.isVmexit && x.1 == 1) = true
  · -- An event with an unknown start is not looked past.
    rw [Tape.fetch, if_pos hmissing] at hgives
    rcases Tape.current_missing hmissing with ⟨e', hbody, hcurrent⟩ | ⟨err, y, U, hbody, hcurrent⟩ |
      ⟨e', y, U, hbody, hcurrent⟩
    · rw [hbody] at hgives
      rw [hcurrent]
      cases hgives with
      | @cut g _ hend hsame =>
        have he' := Tape.startUnknown_stays hmissing (Tape.body_cut hbody).1.position
        rw [currentEvent_of_fetch heof hc ho]
        exact keeps_loop hkeep (fun _ h => h) (mergePass_stay he') hg
    · rw [hbody] at hgives
      rw [hcurrent]
      cases hgives with
      | @malformed g _ _ _ hafter hsame =>
        rw [currentEvent_of_thrown heof hc ho]
        rintro o' ⟨⟩
        exact hg
    · rw [hbody] at hgives
      rw [hcurrent]
      cases hgives with
      | @complete g _ _ _ hafter hsame =>
        obtain ⟨mid, -, -, hends⟩ := Tape.body_complete hbody
        have he' := Tape.startUnknown_stays hmissing hends.position
        rw [currentEvent_of_fetch heof hc ho]
        exact keeps_loop hkeep (fun _ h => h) (mergePass_stay he') hg
  · unfold Tape.current
    rw [Tape.fetch, if_neg hmissing] at hgives ⊢
    generalize hfetch : Tape.fetchVmexit (x :: T) = z at hgives
    cases hgives with
    | @nothing g hend hsame =>
      rw [currentEvent_of_fetch heof hc ho]
      dsimp only
      split_ifs with hn
      · exact keeps_loop hkeep (fun _ h => h) (mergePass_single hend.1 (hend.2.trans hn)) hg
      · rw [mergePass_hang hend.1 (by rw [hend.2]; exact hn) (by rfl) (by rfl)]
        rintro o' ⟨⟩
    | @malformed g err y U hafter hsame =>
      rw [currentEvent_of_thrown heof hc ho]
      rintro o' ⟨⟩
      exact hg
    | @cut g e' hend hsame =>
      obtain ⟨pre, v, mid, hT, -, hv, hcut, -⟩ := Tape.fetchVmexit_cut hfetch
      have hpos : e'.position = v.1 := hcut.position
      have hvpos := h.vmexit_pos hx (y := v) (by simp [hT]) hv
      rw [currentEvent_of_fetch heof hc ho]
      refine settleCut_keeps hkeep hend (hsame.1 ▸ hc) (fun he => ?_) hg
      obtain ⟨hne, -⟩ := (SyncEvent.withoutEffect_iff _).mp he
      omega
    | @complete g e' y U hafter hsame =>
      obtain ⟨pre, v, mid, hT, -, hv, hy, hends⟩ := Tape.fetchVmexit_complete hfetch
      have hpos : e'.position = v.1 := hends.position
      have hvpos := h.vmexit_pos hx (y := v) (by simp [hT]) hv
      have hlt : v.1 < y.1 := by
        have hsorted := h.sorted
        rw [hT, List.pairwise_append, List.pairwise_cons] at hsorted
        exact hsorted.2.1.1 y (by simp)
      rw [currentEvent_of_fetch heof hc ho]
      refine settle_keeps hP hkeep hafter (hsame.1 ▸ hc) (Tape.isVmexit_of_isVmenter hy) (fun he => ?_) hg
      obtain ⟨hne, -⟩ := (SyncEvent.withoutEffect_iff _).mp he
      omega

end keeps

/-- `current_event()`, where it finds an event if it looks ahead. -/
theorem Plays.currentEvent (hD : Delivers R log D) (h : Plays R D f s) (hok : s.Settles log) :
    Option.Rel (Outcome.Rel Eq (Plays R D)) f.currentEvent (s.currentEvent log) := by
  by_cases hcached : (s.current_event.is_valid || s.ended) = true
  · rw [SyncFile.currentEvent, Player.currentEvent, if_pos hcached, h.current_event, h.eof,
      if_pos hcached]
    exact .some (.returned rfl h)
  · obtain ⟨hinvalid, hs⟩ : s.current_event.is_valid = false ∧ s.ended = false := by simpa using hcached
    have hc : f.current_event.is_valid = false := by rw [h.current_event, hinvalid]
    have hafter := (h.reading hs).after
    rw [h.position, h.current, h.tape hD] at hafter
    obtain ⟨o, ho, hgives⟩ := currentEvent_spec hafter hc (h.vmexit hs)
    have hkeeps := current_keeps (carries_keptByNext hD) (fun _ e h => h.keep e) hafter hc (h.vmexit hs)
      (h.carries log hs)
    have hfound := hok (by simpa using hcached)
    rw [Player.currentEvent, if_neg hcached, ho]
    rw [ho] at hkeeps
    rw [← hD.length] at hgives hkeeps
    change Settled.Gives R f (s.settling log) o at hgives
    change Settled.Keeps _ (s.settling log) _ at hkeeps
    generalize s.settling log = z at hgives hkeeps hfound
    cases hgives with
    | hang => exact .none
    | thrown hafter hsame =>
      have hcarries := hkeeps _ rfl
      exact .some (.thrown (hcarries.plays_on hafter hs (hsame.1.trans h.current_event)
        (hsame.2.trans h.last_valid_position)))
    | @stay g e x T hafter hsame =>
      have hcarries := hkeeps _ rfl
      have hplays : Plays R D g (s.on x) := (hcarries.keep g.current_event).plays_on hafter hs
        (hsame.1.trans h.current_event) (hsame.2.trans h.last_valid_position)
      exact .some (.returned rfl (hplays.keep e))
    | @atEnd g e hend hsame =>
      have hcarries := hkeeps _ rfl
      have hplays : Plays R D g (s.atEnd log) := (hcarries.keep g.current_event).plays_atEnd hD hend
        (hsame.1.trans h.current_event) (hsame.2.trans h.last_valid_position)
      exact .some (.returned rfl (hplays.keep e))
    | @back g e q hread hpos hpoint hcur hev =>
      obtain ⟨g', k, hcarries, hseek, heq⟩ := hkeeps
      have hq : q - 1 ≤ log.length := by
        have hle := hread.position_le
        rw [hD.length]
        omega
      obtain ⟨k', hk, hplays⟩ := seek_plays (s := { s with current_event := g'.current_event }) hD
        hcarries.attached hcarries.data rfl (.inl hq)
      rw [hseek] at hk
      cases hk
      have hevent : { s.seek log (q - 1) with current_event := e } =
          { ({ s with current_event := g'.current_event } : Player).seek log (q - 1) with
            current_event := e } := by
        unfold Player.seek
        split
        · rfl
        · split <;> rfl
      rw [heq, Player.settled, hevent]
      exact .some (.returned rfl (hplays.keep e))
    | offEnd hatt hpos => exact absurd trivial hfound

end

end RvnSyncPoint
