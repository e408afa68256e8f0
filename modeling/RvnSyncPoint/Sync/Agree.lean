import RvnSyncPoint.Sync.Calls
import RvnSyncPoint.Sync.Fetch

/-!
# Readers that agree

Two readers of the same file that agree on what their methods look at do the same. `Agree` leaves out
what does not matter: the inside of a data file that has met its end or that the next block is sought
in, a cached event that is not valid, and the last valid position, which nothing but its own accessor
reads. `agree_lockstep` says that every method keeps it.
-/

namespace RvnSyncPoint

open LittleEndian Loop StreamableFile

/-- Two data files that deliver the same blocks: each is sought in before it is read, and neither is
read once its end is met. -/
def SameData (d e : StreamableFile) : Prop :=
  d = e ∨ (d.eof = true ∧ e.eof = true) ∨ (d.eof = false ∧ e.eof = false ∧ ∃ c, On c d ∧ On c e)

/-- Data files in the same healthy state, or at their end, deliver the same blocks. -/
theorem SameData.of_healthy {c : List UInt8} {d e : StreamableFile} (hd : Healthy c d)
    (he : Healthy c e) (heof : d.eof = e.eof) : SameData d e := by
  cases hde : d.eof with
  | true => exact .inr (.inl ⟨hde, heof ▸ hde⟩)
  | false =>
    have hee : e.eof = false := heof ▸ hde
    obtain ⟨o, rfl⟩ := hd.resolve_left (by simp [hde])
    obtain ⟨o', rfl⟩ := he.resolve_left (by simp [hee])
    exact .inr (.inr ⟨rfl, rfl, c, openAt_on c o, openAt_on c o'⟩)

/-- The blocks of a point are read from both data files, or from neither. -/
theorem SameData.readData {d e : StreamableFile} (h : SameData d e) (offset : UInt32) :
    Option.Rel (fun x y => x.1 = y.1 ∧ SameData x.2 y.2) (readData offset d) (readData offset e) := by
  have hrefl : ∀ o : Option (List SyncPointData × StreamableFile),
      Option.Rel (fun x y => x.1 = y.1 ∧ SameData x.2 y.2) o o := by
    intro o
    cases o with
    | none => exact .none
    | some x => exact .some ⟨rfl, .inl rfl⟩
  rcases h with rfl | ⟨hd, he⟩ | ⟨hd, he, c, hdc, hec⟩
  · exact hrefl _
  · unfold RvnSyncPoint.readData
    simp only [hd, he, Bool.not_true, Bool.and_false, Bool.false_eq_true, if_false]
    exact .some ⟨rfl, .inr (.inl ⟨hd, he⟩)⟩
  · -- The seek puts both data files in the same state.
    have hoff : offset.toNat < 2 ^ 63 := by
      have := offset.toNat_lt
      omega
    unfold RvnSyncPoint.readData
    rw [hd, he, hdc.seek hoff, hec.seek hoff]
    split_ifs
    · exact hrefl _
    · exact .some ⟨rfl, .inr (.inr ⟨hd, he, c, hdc, hec⟩)⟩

/-- The two readers agree on all that their methods look at. -/
structure Agree (f g : SyncFile) : Prop where
  file : f.file = g.file
  data : SameData f.data_file g.data_file
  current : f.current = g.current
  event : f.current_event = g.current_event ∨
    f.current_event.is_valid = false ∧ g.current_event.is_valid = false
  position : f.position = g.position
  record_size : f.record_size = g.record_size
  version : f.version = g.version
  sync_point_count : f.sync_point_count = g.sync_point_count
  stack : f.version < 3 → f.stack = g.stack

variable {f g : SyncFile}

theorem Agree.is_valid (h : Agree f g) : f.current_event.is_valid = g.current_event.is_valid := by
  rcases h.event with heq | ⟨hf, hg⟩
  · rw [heq]
  · rw [hf, hg]

/-- Readers that agree extract the same record. -/
theorem Agree.readPoint (h : Agree f g) :
    f.readPoint.1 = g.readPoint.1 ∧ Agree f.readPoint.2 g.readPoint.2 := by
  obtain ⟨file, d, c, event, p, last, record_size, version, count, stack⟩ := f
  obtain ⟨file', d', c', event', p', last', record_size', version', count', stack'⟩ := g
  obtain ⟨hfile, hdata, hc, hevent, hp, hrs, hversion, hcount, hstack⟩ := h
  dsimp only at hfile hdata hc hevent hp hrs hversion hcount hstack
  subst hfile hc hp hrs hversion hcount
  unfold SyncFile.readPoint
  dsimp only
  split_ifs with hv
  · -- Below version 3, the temporary point takes what the stack holds.
    obtain rfl := hstack hv
    exact ⟨rfl, rfl, hdata, rfl, hevent, rfl, rfl, rfl, rfl, fun _ => rfl⟩
  · exact ⟨rfl, rfl, hdata, rfl, hevent, rfl, rfl, rfl, rfl, hstack⟩

/-- Readers that agree count the same point, if they have not met the end of the file. -/
theorem Agree.counted (h : Agree f g) :
    Agree (if f.eof then f else { f with position := (f.position + 1) % 2 ^ 64 })
      (if g.eof then g else { g with position := (g.position + 1) % 2 ^ 64 }) := by
  have heof : f.eof = g.eof := by
    unfold SyncFile.eof
    rw [h.file]
  have hpos : (f.position + 1) % 2 ^ 64 = (g.position + 1) % 2 ^ 64 := by rw [h.position]
  cases hf : f.eof with
  | true =>
    rw [if_pos rfl, if_pos (heof ▸ hf)]
    exact h
  | false =>
    rw [if_neg (by simp), if_neg (by simp [← heof, hf])]
    exact { h with position := hpos }

/-- Readers that agree do the same pass of the read loop. -/
theorem Agree.readPass (h : Agree f g) : Option.Rel Agree f.readPass g.readPass := by
  obtain ⟨hwords, hpoint⟩ := h.readPoint
  unfold SyncFile.readPass
  generalize f.readPoint = x, g.readPoint = y at hwords hpoint
  obtain ⟨⟨type, offset⟩, f⟩ := x
  obtain ⟨words, g⟩ := y
  obtain rfl : (type, offset) = words := hwords
  dsimp only at hpoint ⊢
  refine rel_bind (hpoint.data.readData offset) fun x y hxy => ?_
  obtain ⟨data, d⟩ := x
  obtain ⟨data', e⟩ := y
  obtain ⟨hsame, hdata⟩ := hxy
  obtain rfl : data = data' := hsame
  -- With the data stored in the point, the readers still agree.
  have hstored : Agree { f with current := { f.current.storeType type with data }, data_file := d }
      { g with current := { g.current.storeType type with data }, data_file := e } :=
    ⟨hpoint.file, hdata, by rw [show f.current = g.current from hpoint.current], hpoint.event,
      hpoint.position, hpoint.record_size, hpoint.version, hpoint.sync_point_count, hpoint.stack⟩
  exact .some hstored.counted

/-- Readers that agree are in lockstep. -/
theorem agree_lockstep : Lockstep Agree where
  file h := h.file
  current h := h.current
  position h := h.position
  record_size h := h.record_size
  is_valid h := h.is_valid
  readPass h := h.readPass
  seek h p := { h with file := by rw [h.file] }
  seekFromEnd h p := { h with file := by rw [h.file] }
  resetCurrent h := { h with current := rfl }
  setPosition h p := { h with position := rfl }
  setLast h l := { h with }
  setEvent h e := { h with event := .inl rfl }

/-- A pass of the read loop does not touch the event cache. -/
theorem SyncFile.readPass_cache (h : f.readPass = some g) : SameCache f g := by
  have hpoint : SameCache f f.readPoint.2 := by
    unfold readPoint
    split_ifs <;> exact ⟨rfl, rfl⟩
  unfold readPass at h
  generalize f.readPoint = x at h hpoint
  simp only [Option.bind_eq_bind, Option.bind_eq_some_iff] at h
  obtain ⟨y, -, hg⟩ := h
  cases hg
  split_ifs
  · exact hpoint
  · exact hpoint

/-- Readers that agree, and whose caches are the same too. -/
def AgreeCached (f g : SyncFile) : Prop := Agree f g ∧ SameCache f g

/-- Readers that agree with their caches are in lockstep. -/
theorem agreeCached_lockstep : Lockstep AgreeCached where
  file h := h.1.file
  current h := h.1.current
  position h := h.1.position
  record_size h := h.1.record_size
  is_valid h := h.1.is_valid
  readPass := by
    intro f g h
    have hpass := h.1.readPass
    generalize hf : f.readPass = x, hg : g.readPass = y at hpass
    cases hpass with
    | none => exact .none
    | some hagree =>
      have hcf := f.readPass_cache hf
      have hcg := g.readPass_cache hg
      refine .some ⟨hagree, ?_, ?_⟩
      · rw [hcf.1, hcg.1, h.2.1]
      · rw [hcf.2, hcg.2, h.2.2]
  seek h p := ⟨agree_lockstep.seek h.1 p, h.2⟩
  seekFromEnd h p := ⟨agree_lockstep.seekFromEnd h.1 p, h.2⟩
  resetCurrent h := ⟨agree_lockstep.resetCurrent h.1, h.2⟩
  setPosition h p := ⟨agree_lockstep.setPosition h.1 p, h.2⟩
  setLast h l := ⟨agree_lockstep.setLast h.1 l, h.2.1, rfl⟩
  setEvent h e := ⟨agree_lockstep.setEvent h.1 e, rfl, h.2.2⟩

/-- Readers that agree with their caches give the same results, call after call. -/
theorem AgreeCached.results (h : AgreeCached f g) (cs : List Call) :
    Call.results cs f = Call.results cs g := by
  refine agreeCached_lockstep.results (fun h => ⟨?_, ?_, ?_⟩) cs h
  · rw [h.2.1]
  · rw [h.2.2]
  · rw [h.1.sync_point_count]

end RvnSyncPoint
