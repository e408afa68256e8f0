import RvnSyncPoint.Io.DeviceText
import RvnSyncPoint.Io.File

/-!
# `dump_io`

The program that prints an io file (`bin/dump_io/dump_io.cpp`). Of a file of written devices it prints, in
the order of their ids, those that no later device of the file has the id of (`dumpIo_written`); and the
outputs of two such files are the same exactly when these devices look alike (`dumpIo_inj`).
-/

namespace RvnSyncPoint

open LittleEndian Printing StreamableFile IoFile

/-- `main()` with a file: what it writes to the standard output, or `none` if an exception ends it. -/
def dumpIo (opened : Bool) (m : StringMemory) (source : Option (List UInt8)) : Option (List Char) :=
  match (IoFile.new opened).load m source with
  | .thrown _ _ | .lengthError _ => none
  -- What `load` returns is not looked at: the devices are those that were loaded.
  | .returned _ file =>
    let out := ({} : Ostream).hex.showBase
    some (file.devices.toList.foldl (fun out pair => out.device pair.2) out).text

/-- The devices `es` are those of `ds` that no later one has the id of, in the order of their ids. -/
structure Listed (ds es : List Device) : Prop where
  sorted : es.Pairwise fun d e => d.id < e.id
  mem_iff : ∀ d, d ∈ es ↔ (ds.filter fun e => e.id = d.id).getLast? = some d

/-- A file of written devices. -/
def ioFileOf (version : UInt32) (ds : List Device) : List UInt8 :=
  header version (.ofNat ds.length) ++ ds.flatMap Device.encode

section

variable {opened : Bool} {m : StringMemory} {version : UInt32} {ds es fs : List Device}

/-- What the loop over the devices prints. -/
theorem foldl_devices_text (l : List (UInt64 × Device)) (t : List Char) :
    (l.foldl (fun out pair => Ostream.device pair.2 out) (Ostream.mk t .hex true ' ' 0)).text =
      t ++ (l.map Prod.snd).flatMap Device.text := by
  induction l generalizing t with
  | nil => simp
  | cons pair l ih =>
    rw [List.foldl_cons, Ostream.device_eq, ih, List.map_cons, List.flatMap_cons, List.append_assoc]

/-- There is at most one list of such devices. -/
theorem Listed.unique (h : Listed ds es) (h' : Listed ds fs) : es = fs := by
  have hnodup {es : List Device} (h : Listed ds es) : es.Nodup :=
    h.sorted.imp fun hlt heq => (UInt64.ne_of_lt hlt) (congrArg Device.id heq)
  have hperm : es.Perm fs :=
    (List.perm_ext_iff_of_nodup (hnodup h) (hnodup h')).mpr fun d => by rw [h.mem_iff, h'.mem_iff]
  refine hperm.eq_of_pairwise ?_ h.sorted h'.sorted
  intro d e _ _ hde hed
  exact absurd (UInt64.lt_trans hde hed) (UInt64.lt_irrefl _)

/-- The entries of the map that holds the last device of each id. -/
theorem listed_toList (devices : Std.TreeMap UInt64 Device)
    (h : ∀ id, devices[id]? = (ds.filter fun d => d.id = id).getLast?) :
    Listed ds (devices.toList.map Prod.snd) := by
  have hentry (k : UInt64) (d : Device) : (k, d) ∈ devices.toList ↔
      (ds.filter fun e => e.id = k).getLast? = some d := by
    rw [Std.TreeMap.mem_toList_iff_getElem?_eq_some, h]
  have hkey {k : UInt64} {d : Device} (hd : (k, d) ∈ devices.toList) : d.id = k := by
    have hmem := List.mem_of_getLast? ((hentry k d).mp hd)
    exact of_decide_eq_true (List.mem_filter.mp hmem).2
  constructor
  · rw [List.pairwise_map]
    refine (Std.TreeMap.ordered_keys_toList (t := devices)).imp_of_mem ?_
    rintro ⟨k, d⟩ ⟨l, e⟩ hd he hlt
    rw [hkey hd, hkey he]
    exact Std.compare_eq_lt.mp hlt
  · intro d
    rw [List.mem_map]
    constructor
    · rintro ⟨⟨k, e⟩, he, rfl⟩
      rw [hkey he]
      exact (hentry k e).mp he
    · intro hd
      exact ⟨(d.id, d), (hentry d.id d).mpr hd, rfl⟩

/-- The devices that a file of written devices is loaded with. -/
theorem load_ioFileOf (m : StringMemory) (version : UInt32) (f : IoFile) (hcount : ds.length < 2 ^ 64)
    (hds : ∀ d ∈ ds, d.Short ∧ d.NulFree) :
    ∃ g, f.load m (some (ioFileOf version ds)) = .returned true g ∧
      Listed ds (g.devices.toList.map Prod.snd) := by
  have hsize : (UInt64.ofNat ds.length).toNat = ds.length := UInt64.toNat_ofNat_of_lt' hcount
  have hdrop : ds.flatMap Device.encode <+: (ioFileOf version ds).drop 20 := by
    rw [ioFileOf, ← length_header version (.ofNat ds.length), List.drop_left]
  obtain ⟨o', hload⟩ := loadDevices_encoded (m := m) hds hdrop ∅
  have haccepted : Accepted (ioFileOf version ds) := accepted_header version _ _
  have hannounced : announced (ioFileOf version ds) = ds.length := by
    rw [ioFileOf, announced_header, hsize]
  refine ⟨_, by rw [load_accepted m haccepted, hannounced, hload], listed_toList _ fun id => ?_⟩
  rw [getElem?_foldl_insert, Std.TreeMap.getElem?_emptyc, Option.or_none]

/-- The output for a file of written devices. -/
theorem dumpIo_eq (hcount : ds.length < 2 ^ 64) (hds : ∀ d ∈ ds, d.Short ∧ d.NulFree)
    (hes : Listed ds es) :
    dumpIo opened m (some (ioFileOf version ds)) = some (es.flatMap Device.text) := by
  obtain ⟨g, hload, hlisted⟩ := load_ioFileOf m version (.new opened) hcount hds
  unfold dumpIo
  rw [hload, hes.unique hlisted]
  exact congrArg some (foldl_devices_text g.devices.toList [])

/-- Of a file of written devices, `dump_io` prints those that no later one has the id of, in the order of
their ids. -/
theorem dumpIo_written (opened : Bool) (m : StringMemory) (version : UInt32) (ds : List Device)
    (hcount : ds.length < 2 ^ 64) (hds : ∀ d ∈ ds, d.Short ∧ d.NulFree) :
    ∃ es, Listed ds es ∧
      dumpIo opened m (some (ioFileOf version ds)) = some (es.flatMap Device.text) := by
  obtain ⟨g, -, hlisted⟩ := load_ioFileOf m version (.new opened) hcount hds
  exact ⟨_, hlisted, dumpIo_eq hcount hds hlisted⟩

/-- Two devices with the same id, of which the later one is printed. -/
theorem dumpIo_written_sameId : ∃ es, Listed sameId es ∧
    dumpIo false zeroMemory (some (ioFileOf 1 sameId)) = some (es.flatMap Device.text) :=
  dumpIo_written false zeroMemory 1 sameId (by decide)
    (by simp [sameId, Device.Short, Device.NulFree, Device.value, PortRange.value, MemoryRange.value,
      StreamType.Short, StreamType.NulFree])

/-- The texts of devices, one after the other, tell what they look like. -/
theorem deviceTexts_inj (hes : ∀ d ∈ es, d.OneLined) (hfs : ∀ d ∈ fs, d.OneLined) :
    es.flatMap Device.text = fs.flatMap Device.text ↔ List.Forall₂ Device.LooksLike es fs := by
  constructor
  · intro h
    refine Device.text_determines.flatMap_eq (fun d => ?_) es fs (fun d hd e he => ⟨hes d hd, hfs e he⟩) h
    simp [Device.text, Device.heading]
  · intro h
    clear hes hfs
    induction h with
    | nil => rfl
    | cons hde _ ih => rw [List.flatMap_cons, List.flatMap_cons, hde.text_eq, ih]

/-- The outputs of two files of written devices, whose names and descriptions have no line breaks, are the
same exactly when the devices that are printed look alike, one by one: they differ at most in where the
names end, and in the instances of the ranges. -/
theorem dumpIo_inj (opened opened' : Bool) (m m' : StringMemory) (version version' : UInt32)
    (ds ds' es es' : List Device) (hcount : ds.length < 2 ^ 64) (hcount' : ds'.length < 2 ^ 64)
    (hds : ∀ d ∈ ds, (d.Short ∧ d.NulFree) ∧ d.OneLined)
    (hds' : ∀ d ∈ ds', (d.Short ∧ d.NulFree) ∧ d.OneLined) (hes : Listed ds es) (hes' : Listed ds' es') :
    dumpIo opened m (some (ioFileOf version ds)) = dumpIo opened' m' (some (ioFileOf version' ds')) ↔
      List.Forall₂ Device.LooksLike es es' := by
  have hmem {ds es : List Device} (h : Listed ds es) : ∀ d ∈ es, d ∈ ds := fun d hd =>
    (List.mem_filter.mp (List.mem_of_getLast? ((h.mem_iff d).mp hd))).1
  rw [dumpIo_eq hcount (fun d hd => (hds d hd).1) hes, dumpIo_eq hcount' (fun d hd => (hds' d hd).1) hes',
    Option.some_inj]
  exact deviceTexts_inj (fun d hd => (hds d (hmem hes d hd)).2) fun d hd => (hds' d (hmem hes' d hd)).2

/-- A device alone is printed. -/
theorem listed_singleton (d : Device) : Listed [d] [d] where
  sorted := List.pairwise_singleton _ _
  mem_iff e := by
    by_cases hid : d.id = e.id
    · simp [hid, eq_comm]
    · have hne : e ≠ d := by
        rintro rfl
        exact hid rfl
      simp [hid, hne]

/-- A device without ranges, with short and plain texts. -/
theorem plain_device {name description : List UInt8} (id : UInt64)
    (hlen : name.length < 2 ^ 32 ∧ description.length < 2 ^ 32) (hname : 0 ∉ name ∧ 10 ∉ name)
    (hdescription : 0 ∉ description ∧ 10 ∉ description) :
    ∀ d ∈ [(⟨name, description, id, [], []⟩ : Device)], (d.Short ∧ d.NulFree) ∧ d.OneLined := by
  have hfree {s : List UInt8} (h : 0 ∉ s) : ∀ b ∈ s, b ≠ 0 := fun b hb hzero => h (hzero ▸ hb)
  rw [List.forall_mem_singleton]
  refine ⟨⟨⟨hlen.1, hlen.2, trivial, ⟨Nat.two_pow_pos 64, nofun⟩, ⟨Nat.two_pow_pos 64, nofun⟩⟩,
    ⟨hfree hname.1, hfree hdescription.1, trivial, nofun, nofun⟩⟩, ?_⟩
  exact ⟨hname.2, hdescription.2, nofun, nofun⟩

/-- The name `a - b`, and the name `a` with the description `b - `. -/
theorem dumpIo_inj_caption :
    dumpIo false zeroMemory (some (ioFileOf 0 [⟨[0x61, 0x20, 0x2d, 0x20, 0x62], [], 7, [], []⟩])) =
      dumpIo false zeroMemory (some (ioFileOf 0 [⟨[0x61], [0x62, 0x20, 0x2d, 0x20], 7, [], []⟩])) := by
  refine (dumpIo_inj false false zeroMemory zeroMemory 0 0 _ _ _ _ (by decide) (by decide)
    (plain_device 7 (by decide) (by decide) (by decide)) (plain_device 7 (by decide) (by decide) (by decide))
    (listed_singleton _) (listed_singleton _)).mpr ?_
  exact .cons ⟨rfl, rfl, .nil, .nil⟩ .nil

end

end RvnSyncPoint
