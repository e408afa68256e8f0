import RvnSyncPoint.Extent
import RvnSyncPoint.Io.File

/-!
# Truncated io files

The loop of `load` on the devices does not look for the end of the file, which an extraction takes for
zeros. So `load` returns true on every file with a header, unless the length of a string on the way is
more than a string can have; and a truncated file is refused in no other case (`rejectsTruncated_iff`).
-/

namespace RvnSyncPoint

open LittleEndian StreamableFile

/-- The lengths of the names and descriptions of a device, and the sizes of its vectors, are 64-bit
numbers. -/
def Device.Sized (d : Device) : Prop := Device.type.Sized d.value

namespace IoFile

/-- The devices that the header announces are there in whole. -/
def Contains (c : List UInt8) : Prop :=
  ∃ ds : List Device, ds.length = announced c ∧ (∀ d ∈ ds, d.Sized) ∧
    ds.flatMap Device.encode <+: c.drop 20

/-- `load` returns true only if the devices are there. -/
def RejectsTruncated (m : StringMemory) (c : List UInt8) : Prop :=
  ∀ f g : IoFile, f.load m (some c) = .returned true g → Contains c

/-- Where the devices end, from the lengths and sizes on the way. -/
def devicesEnd (chars : ℕ → Option ℕ) (c : List UInt8) : Option ℕ :=
  stopAll (Device.type.stop chars c) (announced c) 20

variable {m : StringMemory} {c : List UInt8} {o : ℕ}

/-- The devices are there when the last of them ends inside the file. -/
theorem contains_iff (h : 20 ≤ c.length) : Contains c ↔ ∃ e ≤ c.length, devicesEnd some c = some e := by
  have hfree : Device.type.BoolFree := by simp [StreamType.BoolFree]
  rw [devicesEnd, ← exists_encode_iff Device.type hfree (announced c) h]
  constructor
  · rintro ⟨ds, hlen, hsized, hprefix⟩
    refine ⟨ds.map Device.value, by rw [List.length_map, hlen], ?_, ?_⟩
    · rintro v hv
      obtain ⟨d, hd, rfl⟩ := List.mem_map.mp hv
      exact hsized d hd
    · rw [List.flatMap_map]
      exact hprefix
  · rintro ⟨vs, hlen, hsized, hprefix⟩
    refine ⟨vs.map Device.ofValue, by rw [List.length_map, hlen], ?_, ?_⟩
    · rintro d hd
      obtain ⟨v, hv, rfl⟩ := List.mem_map.mp hd
      rw [Device.Sized, Device.value_ofValue]
      exact hsized v hv
    · rw [List.flatMap_map]
      simpa only [Device.encode, Device.value_ofValue] using hprefix

theorem readDevice_follows (m : StringMemory) :
    Follows (readDevice m) c (Device.type.stop m.asked c) := by
  rw [readDevice_eq, map_eq_pure_bind]
  exact (read_follows m Device.type).map Device.ofValue

/-- The loop on the devices throws where the walk through them is given up, and otherwise returns true,
whether or not the file goes that far. -/
theorem loadDevices_follows (m : StringMemory) (n : ℕ) {f : IoFile} (h : After c o f.file) :
    match stopAll (Device.type.stop m.asked c) n o with
    | none => ∃ g, loadDevices m n f = .lengthError g
    | some _ => ∃ g, loadDevices m n f = .returned true g := by
  induction n generalizing o f with
  | zero => exact ⟨f, rfl⟩
  | succ n ih =>
    have hread := readDevice_follows m o f.file h
    rw [stopAll, loadDevices]
    cases hstop : Device.type.stop m.asked c o with
    | none =>
      rw [hstop] at hread
      rcases hdevice : tryExtract (readDevice m) f.file with ⟨_ | d, file⟩
      · exact ⟨_, rfl⟩
      · rw [hdevice] at hread
        cases hread
    | some e =>
      rw [hstop] at hread
      obtain ⟨d, file, hdevice, hfile⟩ := hread
      rw [hdevice]
      exact ih (f := { file, devices := f.devices.insert d.id d }) hfile

/-- The files of which `load` returns true only if the devices are there: those without a header, those
with a string on the way whose length is more than a string can have, and those in which the devices
end. -/
theorem rejectsTruncated_iff (m : StringMemory) (c : List UInt8) : RejectsTruncated m c ↔
    ¬ Accepted c ∨ devicesEnd m.asked c = none ∨ ∃ e ≤ c.length, devicesEnd some c = some e := by
  by_cases haccepted : Accepted c
  · have hload := load_accepted m haccepted
    have hfollows := loadDevices_follows m (announced c) (f := ⟨openAt c 20, ∅⟩)
      (.inl ⟨rfl, haccepted.1⟩)
    rw [← contains_iff haccepted.1]
    cases hend : devicesEnd m.asked c with
    | none =>
      -- An exception is thrown.
      rw [devicesEnd] at hend
      rw [hend] at hfollows
      obtain ⟨g, hg⟩ := hfollows
      refine iff_of_true (fun f g' h => ?_) (.inr (.inl rfl))
      rw [hload, hg] at h
      cases h
    | some e =>
      -- The devices are taken to be there.
      rw [devicesEnd] at hend
      rw [hend] at hfollows
      obtain ⟨g, hg⟩ := hfollows
      constructor
      · exact fun h => .inr (.inr (h (new false) g ((hload _).trans hg)))
      · rintro (h | h | h)
        · exact absurd haccepted h
        · cases h
        · exact fun _ _ _ => h
  · exact iff_of_true (fun f g h => absurd h (load_refused m haccepted f g)) (.inl haccepted)

/-- A header that announces a device, and nothing after it, is loaded as a device with the id zero. -/
theorem not_rejectsTruncated : ¬ RejectsTruncated zeroMemory (header 1 1) ∧
    ∃ g, (new false).load zeroMemory (some (header 1 1)) = .returned true g ∧
      g.devices[(0 : UInt64)]? = some ⟨[], [], 0, [], []⟩ := by
  have hread : tryExtract (readDevice zeroMemory) (openAt (header 1 1) 20) =
      (some ⟨[], [], 0, [], []⟩, endAt (header 1 1) 20) := by decide
  have hload : (new false).load zeroMemory (some (header 1 1)) =
      .returned true ⟨endAt (header 1 1) 20,
        (∅ : Std.TreeMap UInt64 Device).insert 0 ⟨[], [], 0, [], []⟩⟩ := by
    have haccepted : Accepted (header 1 1) := ⟨by decide, by decide⟩
    have hone : announced (header 1 1) = 1 := by decide
    rw [load_accepted zeroMemory haccepted, hone, loadDevices, hread]
    rfl
  refine ⟨fun h => ?_, _, hload, Std.TreeMap.getElem?_insert_self⟩
  obtain ⟨ds, hlen, -, hprefix⟩ := h _ _ hload
  have hnil : (header 1 1).drop 20 = [] := by decide
  rw [hnil, List.prefix_nil] at hprefix
  cases ds with
  | nil => cases hlen
  | cons d ds =>
    have hpos := congrArg List.length hprefix
    simp [Device.encode, StreamType.encode] at hpos

end IoFile

end RvnSyncPoint
