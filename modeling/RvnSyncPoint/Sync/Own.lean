import RvnSyncPoint.Sync.Decode

/-!
# Left-over vectors

The point of a record that is no interrupt keeps the vector of an interrupt before it, and which one
depends on where the reader came from. No event depends on it: what is fetched and settled on is the
same for a tape without left-over vectors (`Tape.current_own`). Without a data file, that tape consists of
the kept records from the reader's position on, each decoded on its own (`Reading.tape_own`).
-/

namespace RvnSyncPoint

open LittleEndian Loop StreamableFile

namespace Tape

/-- A point of a tape, without a left-over vector. -/
def ownAt (x : ℕ × SyncPoint) : ℕ × SyncPoint := (x.1, x.2.own)

/-- The tape without left-over vectors. -/
def own (T : Tape) : Tape := T.map ownAt

end Tape

/-- What is fetched, without left-over vectors. -/
def Fetched.own : Fetched → Fetched
  | .nothing => .nothing
  | .cut e => .cut e
  | .malformed err x T => .malformed err (Tape.ownAt x) (Tape.own T)
  | .complete e x T => .complete e (Tape.ownAt x) (Tape.own T)

/-- What is settled on, without left-over vectors. -/
def Settled.own : Settled → Settled
  | .hang => .hang
  | .thrown err x T => .thrown err (Tape.ownAt x) (Tape.own T)
  | .stay e x T => .stay e (Tape.ownAt x) (Tape.own T)
  | .atEnd e => .atEnd e
  | .back e q => .back e q
  | .offEnd e => .offEnd e

namespace Tape

variable {n : ℕ} {e : SyncEvent} {isp : SyncPoint} {x : ℕ × SyncPoint} {T : Tape}

/-! ## Fetching and settling -/

theorem vmenter_own : vmenter e (ownAt x) (own T) = (vmenter e x T).own := by
  have hfin : e.finish (ownAt x).2 (ownAt x).1 = e.finish x.2 x.1 := rfl
  unfold vmenter
  rw [hfin]
  cases e.finish x.2 x.1 <;> rfl

theorem afterInterrupt_own :
    afterInterrupt e isp (ownAt x) (own T) = (afterInterrupt e isp x T).own := by
  have heq : (ownAt x).2.isEquivalent isp = x.2.isEquivalent isp := rfl
  have hdata : e.addData (ownAt x).2 = e.addData x.2 := rfl
  unfold afterInterrupt
  rw [heq, hdata, vmenter_own]
  split_ifs <;> rfl

theorem interrupt_own (hx : x.2.isInterrupt = true) :
    interrupt e (ownAt x) (own T) = (interrupt e x T).own := by
  have hsame : ownAt x = x := by rw [ownAt, SyncPoint.own_of_isInterrupt hx]
  rw [hsame]
  match T with
  | [] => rfl
  | [y] =>
    have hint : (ownAt y).2.isInterrupt = y.2.isInterrupt := rfl
    have heq : (ownAt y).2.isEquivalent x.2 = y.2.isEquivalent x.2 := rfl
    simp only [own, List.map_cons, List.map_nil, interrupt, hint, heq]
    split_ifs
    · rfl
    · rfl
    · exact afterInterrupt_own (T := [])
  | y :: z :: T =>
    have hint : (ownAt y).2.isInterrupt = y.2.isInterrupt := rfl
    have heq : (ownAt y).2.isEquivalent x.2 = y.2.isEquivalent x.2 := rfl
    simp only [own, List.map_cons, interrupt, hint, heq]
    split_ifs
    · rfl
    · exact afterInterrupt_own
    · exact afterInterrupt_own (T := z :: T)

theorem body_own : body e (ownAt x) (own T) = (body e x T).own := by
  have hint : (ownAt x).2.isInterrupt = x.2.isInterrupt := rfl
  have hdata : e.addData (ownAt x).2 = e.addData x.2 := rfl
  unfold body
  rw [hint, hdata]
  split_ifs with h
  · exact interrupt_own h
  · exact vmenter_own

theorem fetchVmexit_own (T : Tape) : fetchVmexit (own T) = (fetchVmexit T).own := by
  have hskip : toVmexit (own T) = own (toVmexit T) := by
    unfold toVmexit own
    rw [List.dropWhile_map]
    rfl
  unfold fetchVmexit
  rw [hskip]
  match toVmexit T with
  | [] => rfl
  | [x] => rfl
  | x :: y :: U => exact body_own

theorem fetch_own : fetch (ownAt x) (own T) = (fetch x T).own := by
  have hkind : (ownAt x).2.isVmexit = x.2.isVmexit := rfl
  have hpos : (ownAt x).1 = x.1 := rfl
  unfold fetch
  rw [hkind, hpos]
  split_ifs
  · exact body_own
  · exact fetchVmexit_own (x :: T)

/-- Settling does not depend on left-over vectors. -/
theorem settle_own (e : SyncEvent) (x : ℕ × SyncPoint) (T : Tape) :
    settle n e (ownAt x) (own T) = (settle n e x T).own := by
  -- Nothing that the cases look at has a left-over vector in it.
  induction e, x, T using settle_induction with
  | stay e x T he =>
    rw [settle_stay he, settle_stay he]
    rfl
  | nothing e x T he hfetch =>
    have hown := fetchVmexit_own T
    rw [hfetch] at hown
    rw [settle_nothing he hfetch, settle_nothing he hown]
    split_ifs <;> rfl
  | malformed e x T err y U he hfetch =>
    have hown := fetchVmexit_own T
    rw [hfetch] at hown
    rw [settle_malformed he hfetch, settle_malformed he hown]
    rfl
  | cut e x T e' he hfetch =>
    have hown := fetchVmexit_own T
    rw [hfetch] at hown
    rw [settle_cut he hfetch, settle_cut he hown]
    unfold settleCut
    split_ifs <;> rfl
  | back e x T e' y U he hfetch hm =>
    have hown := fetchVmexit_own T
    rw [hfetch] at hown
    rw [settle_back he hfetch hm, settle_back he hown hm]
    rfl
  | merge e x T e' y U he hfetch hm ih =>
    have hown := fetchVmexit_own T
    rw [hfetch] at hown
    rw [settle_merge he hfetch hm, settle_merge he hown hm]
    exact ih

/-- What `current_event` settles on does not depend on left-over vectors. -/
theorem current_own : current n (ownAt x) (own T) = (current n x T).own := by
  unfold current
  rw [fetch_own]
  cases fetch x T with
  | nothing =>
    show (if n = 1 then Settled.atEnd (lastEvent 1) else .hang) = _
    split_ifs <;> rfl
  | cut e =>
    show settleCut n e = (settleCut n e).own
    unfold settleCut
    split_ifs <;> rfl
  | malformed err y U => rfl
  | complete e y U => exact settle_own e y U

end Tape

/-! ## The tape of a reader without a data file -/

/-- The `k`-th record as a point of a tape, decoded on its own. -/
def Recording.pointAt (R : Recording) (k : ℕ) : ℕ × SyncPoint := (k, (R.record k).decode)

section

variable {R : Recording} {d : StreamableFile} {f : SyncFile} {c : SyncPoint} {p : ℕ}

/-- The point `c` is the one before the first record, or `operator==` identifies it with the `p`-th. -/
def Recording.Stands (R : Recording) (p : ℕ) (c : SyncPoint) : Prop :=
  p = 0 ∧ c = {} ∨ 1 ≤ p ∧ c.own.operatorEq (R.record p).decode = true

theorem Recording.keptFrom_lt (h : p < R.count) : R.keptFrom p =
    if R.keeps (p + 1) then (p + 1) :: R.keptFrom (p + 1) else R.keptFrom (p + 1) := by
  have hsub : R.count - p = (R.count - (p + 1)) + 1 := by omega
  rw [keptFrom, hsub, List.range'_succ, List.filter_cons]
  rfl

/-- The next record is kept if `operator==` tells it from the current point. -/
theorem Recording.Stands.keeps (h : R.Stands p c) (hp : p < R.count) :
    R.keeps (p + 1) = !c.own.operatorEq (R.record (p + 1)).decode := by
  unfold Recording.keeps
  rcases h with ⟨rfl, rfl⟩ | ⟨h1, heq⟩
  · -- No record has the TSC of the default point.
    have hne : SyncPoint.operatorEq {} (R.record 1).decode = false := by
      apply Bool.eq_false_of_not_eq_true
      intro heq
      have htsc := congrArg SyncPoint.tsc ((SyncPoint.operatorEq_iff _ _).mp heq)
      have hpoint : R.IsPoint 1 (R.record 1).decode := ⟨le_rfl, hp, _, _, rfl⟩
      exact hpoint.tsc htsc.symm
    show true = !SyncPoint.operatorEq {} (R.record 1).decode
    rw [hne]
    rfl
  · have hne : ¬ p + 1 = 1 := by omega
    have hsame : (R.record p).decode.operatorEq (R.record (p + 1)).decode =
        c.own.operatorEq (R.record (p + 1)).decode := by
      rw [Bool.eq_iff_iff, SyncPoint.operatorEq_iff, SyncPoint.operatorEq_iff,
        (SyncPoint.operatorEq_iff _ _).mp heq]
    rw [decide_eq_false hne, Bool.false_or, Nat.add_sub_cancel, hsame]

/-- The point of a flagged record stands there. -/
theorem Recording.IsPoint.stands (h : R.IsPoint p c) (hflag : (R.record p).Flagged) : R.Stands p c := by
  obtain ⟨h1, -, v, data, rfl⟩ := h
  refine .inr ⟨h1, ?_⟩
  rw [hflag.own_operatorEq]
  exact (SyncPoint.operatorEq_iff _ _).mpr rfl

/-- The tape from a point that stands at `p`. The induction is on the records that remain. -/
theorem tapeOf_own (hflag : R.Flagged) (hd : d.eof = true) (n : ℕ) : ∀ (p : ℕ) (c : SyncPoint),
    R.count - p = n → R.Stands p c →
    Tape.own (tapeOf p c d (R.recordsFrom p)) = (R.keptFrom p).map R.pointAt := by
  induction n with
  | zero =>
    intro p c hn hc
    have hnil : R.recordsFrom p = [] := by rw [Recording.recordsFrom, hn]; rfl
    have hkept : R.keptFrom p = [] := by rw [Recording.keptFrom, hn]; rfl
    rw [hnil, hkept]
    rfl
  | succ n ih =>
    intro p c hn hc
    have hlt : p < R.count := by omega
    have hr := hflag (p + 1) (by omega) hlt
    have hkeep := hc.keeps hlt
    rw [← hr.operatorEq c []] at hkeep
    rw [R.recordsFrom_lt hlt, R.keptFrom_lt hlt, tapeOf]
    dsimp only
    rw [dataAt_eof hd]
    dsimp only
    rw [hkeep]
    cases heq : c.operatorEq ((R.record (p + 1)).point c []) with
    | true =>
      -- The record is identical to the point before, which still stands at it.
      rw [if_pos rfl, if_neg (by simp)]
      refine ih (p + 1) c (by omega) (.inr ⟨by omega, ?_⟩)
      rw [← hr.operatorEq c [], heq]
    | false =>
      -- The record is kept, and the tape goes on from its point.
      have hown : ((R.record (p + 1)).point c []).own = (R.record (p + 1)).decode := hr.own c []
      have hstands : R.Stands (p + 1) ((R.record (p + 1)).point c []) :=
        Recording.IsPoint.stands ⟨by omega, hlt, c, [], rfl⟩ hr
      rw [if_neg (by simp), if_pos (by simp), List.map_cons, ← ih (p + 1) _ (by omega) hstands]
      show Tape.ownAt _ :: _ = R.pointAt (p + 1) :: _
      rw [Tape.ownAt, hown]
      rfl

/-- Without a data file, the tape of a reader consists of the kept records from its position on. -/
theorem Recording.tape_own (hflag : R.Flagged) (hd : f.data_file.eof = true)
    (hc : R.Stands f.position f.current) :
    Tape.own (R.tape f) = (R.keptFrom f.position).map R.pointAt :=
  tapeOf_own hflag hd _ f.position f.current rfl hc

end

end RvnSyncPoint
