import RvnSyncPoint.Ostream
import RvnSyncPoint.Io.Device

/-!
# The text of a device

What `dump_io` prints of a device (`bin/dump_io/dump_io.cpp`): a line with its name, description and id,
its ranges of ports and of memory under a title each, and an empty line. If the names and descriptions have
no line breaks, the text of a device tells where it ends and everything of the device but the instances of
its ranges, and where in its first line the name ends (`Device.text_determines`).
-/

namespace RvnSyncPoint

open Printing

namespace Ostream

/-- The line of a range. -/
def range (first last : ℕ) (description : List UInt8) (out : Ostream) : Ostream :=
  out |>.str "    " |>.number first |>.str "-" |>.number last |>.str ": " |>.bytes description |>.endl

/-- The sum of the two 16-bit numbers is one of `int`. -/
def portRange (port : PortRange) : Ostream → Ostream :=
  range port.port.toNat (port.port.toNat + port.length.toNat) port.description

/-- The sum of the two 64-bit numbers may wrap around. -/
def memoryRange (mem : MemoryRange) : Ostream → Ostream :=
  range mem.physical_address.toNat (mem.physical_address + mem.length).toNat mem.description

/-- The title and the loop over the ranges, if there are any. -/
def ranges {κ : Type} (title : String) (print : κ → Ostream → Ostream) (ranges : List κ) (out : Ostream) :
    Ostream :=
  if !ranges.isEmpty then ranges.foldl (fun out range => print range out) (out |>.str title |>.endl)
  else out

/-- The body of the loop over the devices. -/
def device (dev : Device) (out : Ostream) : Ostream :=
  out |>.bytes dev.name |>.str " - " |>.bytes dev.description |>.str "Id: " |>.number dev.id.toNat |>.endl
    |>.ranges "Port mappings:" portRange dev.port_ranges
    |>.ranges "Memory mappings:" memoryRange dev.memory_ranges |>.endl

end Ostream

/-! ## The text -/

def rangeText (first last : ℕ) (description : List UInt8) : List Char :=
  "    ".toList ++ (numeral .hex true first ++ ['-']) ++ (numeral .hex true last ++ [':']) ++
    (" ".toList ++ (description.map Char.ofUInt8 ++ ['\n']))

def PortRange.text (r : PortRange) : List Char :=
  rangeText r.port.toNat (r.port.toNat + r.length.toNat) r.description

def MemoryRange.text (r : MemoryRange) : List Char :=
  rangeText r.physical_address.toNat (r.physical_address + r.length).toNat r.description

/-- A title, and the lines of the ranges under it, if there are any. -/
def sectionText {κ : Type} (title : String) (text : κ → List Char) (ranges : List κ) : List Char :=
  if ranges.isEmpty then [] else title.toList ++ ['\n'] ++ ranges.flatMap text

namespace Device

/-- The name and the description, as they are printed. -/
def caption (d : Device) : List Char :=
  d.name.map Char.ofUInt8 ++ " - ".toList ++ d.description.map Char.ofUInt8

/-- The first line. -/
def heading (d : Device) : List Char :=
  d.caption ++ ("Id:".toList ++ ' ' :: numeral .hex true d.id.toNat) ++ ['\n']

/-- What is printed of a device. -/
def text (d : Device) : List Char :=
  d.heading ++ (sectionText "Port mappings:" PortRange.text d.port_ranges ++
    (sectionText "Memory mappings:" MemoryRange.text d.memory_ranges ++ ['\n']))

end Device

section

variable (t : List Char) (fill : Char)

theorem Ostream.range_eq (first last : ℕ) (description : List UInt8) :
    (Ostream.mk t .hex true fill 0).range first last description =
      ⟨t ++ rangeText first last description, .hex, true, fill, 0⟩ := by
  have hcolon : ": ".toList = [':'] ++ " ".toList := rfl
  have hdash : "-".toList = ['-'] := rfl
  unfold range rangeText
  simp only [str_mk_zero, number_mk_zero, bytes_mk_zero, endl_mk, hcolon, hdash, List.append_assoc]

/-- The lines of a section. -/
theorem Ostream.foldl_ranges_eq {κ : Type} {print : κ → Ostream → Ostream} {text : κ → List Char}
    (hprint : ∀ t k, print k (Ostream.mk t .hex true fill 0) = ⟨t ++ text k, .hex, true, fill, 0⟩)
    (l : List κ) : l.foldl (fun out range => print range out) (Ostream.mk t .hex true fill 0) =
      ⟨t ++ l.flatMap text, .hex, true, fill, 0⟩ := by
  induction l generalizing t with
  | nil => simp
  | cons k l ih =>
    rw [List.foldl_cons, hprint, ih, List.flatMap_cons, List.append_assoc]

theorem Ostream.ranges_eq {κ : Type} {print : κ → Ostream → Ostream} {text : κ → List Char}
    (hprint : ∀ t k, print k (Ostream.mk t .hex true fill 0) = ⟨t ++ text k, .hex, true, fill, 0⟩)
    (title : String) (l : List κ) : (Ostream.mk t .hex true fill 0).ranges title print l =
      ⟨t ++ sectionText title text l, .hex, true, fill, 0⟩ := by
  unfold ranges sectionText
  cases l.isEmpty with
  | true => simp
  | false =>
    simp only [Bool.not_false, if_true, Bool.false_eq_true, if_false, str_mk_zero, endl_mk]
    rw [foldl_ranges_eq _ _ hprint]
    simp only [List.append_assoc]

/-- A device is printed in a stream that shows the base of its hexadecimal numbers. -/
theorem Ostream.device_eq (d : Device) :
    (Ostream.mk t .hex true fill 0).device d = ⟨t ++ d.text, .hex, true, fill, 0⟩ := by
  have hid : "Id: ".toList = "Id:".toList ++ [' '] := rfl
  have hports (t : List Char) (r : PortRange) :
      (Ostream.mk t .hex true fill 0).portRange r = ⟨t ++ r.text, .hex, true, fill, 0⟩ :=
    range_eq t fill _ _ _
  have hmemory (t : List Char) (r : MemoryRange) :
      (Ostream.mk t .hex true fill 0).memoryRange r = ⟨t ++ r.text, .hex, true, fill, 0⟩ :=
    range_eq t fill _ _ _
  unfold device Device.text Device.heading Device.caption
  simp only [str_mk_zero, number_mk_zero, bytes_mk_zero, endl_mk, ranges_eq _ _ hports,
    ranges_eq _ _ hmemory, hid, List.append_assoc, List.cons_append, List.nil_append]

end

/-- There is no line break between the description and the id. -/
example : (({} : Ostream).hex.showBase.device ⟨[0x61], [], 7, [⟨[0x62], 0x60, 5, 0⟩], []⟩).text =
    "a - Id: 0x7\nPort mappings:\n    0x60-0x65: b\n\n".toList := by decide


/-! ## What the text tells -/

/-- A description without a line break. -/
def OneLine (s : List UInt8) : Prop := 10 ∉ s

instance (s : List UInt8) : Decidable (OneLine s) := inferInstanceAs (Decidable (_ ∉ _))

namespace Device

/-- The names and descriptions have no line breaks. -/
structure OneLined (d : Device) : Prop where
  name : OneLine d.name
  description : OneLine d.description
  port_ranges : ∀ r ∈ d.port_ranges, OneLine r.description
  memory_ranges : ∀ r ∈ d.memory_ranges, OneLine r.description

end Device

/-- The ranges are the same but for their instances. -/
def PortRange.LooksLike (r s : PortRange) : Prop :=
  r.port = s.port ∧ r.length = s.length ∧ r.description = s.description

def MemoryRange.LooksLike (r s : MemoryRange) : Prop :=
  r.physical_address = s.physical_address ∧ r.length = s.length ∧ r.description = s.description

/-- The devices are the same but for the instances of their ranges, and for where the name ends. -/
structure Device.LooksLike (d e : Device) : Prop where
  caption : d.caption = e.caption
  id : d.id = e.id
  port_ranges : List.Forall₂ PortRange.LooksLike d.port_ranges e.port_ranges
  memory_ranges : List.Forall₂ MemoryRange.LooksLike d.memory_ranges e.memory_ranges

theorem newline_not_mem {s : List UInt8} (h : OneLine s) : '\n' ∉ s.map Char.ofUInt8 := by
  intro hmem
  obtain ⟨b, hb, hc⟩ := List.mem_map.mp hmem
  have hten : b = 10 := ofUInt8_injective hc
  exact h (hten ▸ hb)

/-- A range, followed by anything. -/
theorem range_determines {κ : Type} (first last : κ → ℕ) (description : κ → List UInt8) :
    Determines (fun k m => OneLine (description k) ∧ OneLine (description m))
      (fun k => rangeText (first k) (last k) (description k))
      fun k m => first k = first m ∧ last k = last m ∧ description k = description m := by
  have hnumber {P : κ → κ → Prop} {c : Char} (value : κ → ℕ) (hx : c ≠ 'x')
      (hc : ∀ d < 16, c ≠ Nat.digitChar d) : Determines P (fun k => numeral .hex true (value k) ++ [c])
        fun k m => P k m ∧ value k = value m :=
    .keep (.terminated
      (fun _ _ _ => ⟨not_mem_numeral_showbase hx hc _, not_mem_numeral_showbase hx hc _⟩)
      fun _ _ _ h => numeral_injective h)
  have hline := (hnumber (c := '-') first (by decide) (by decide)
    (P := fun k m => OneLine (description k) ∧ OneLine (description m)))
  unfold rangeText
  refine .append (.append (.append (.literal _) hline)
    (hnumber last (by decide) (by decide))) (.append (.literal _) (.terminated ?_ ?_))
  · rintro k m ⟨⟨⟨hk, hm⟩, -⟩, -⟩
    exact ⟨newline_not_mem hk, newline_not_mem hm⟩
  · rintro k m ⟨⟨-, hfirst⟩, hlast⟩ h
    exact ⟨hfirst, hlast, List.map_injective_iff.mpr ofUInt8_injective h⟩

theorem PortRange.text_determines :
    Determines (fun r s => OneLine r.description ∧ OneLine s.description) text LooksLike := by
  have hrange := range_determines (fun r : PortRange => r.port.toNat)
    (fun r => r.port.toNat + r.length.toNat) description
  refine hrange.consequence (fun _ _ h => h) fun r s _ ⟨hport, hlast, hdescription⟩ => ?_
  exact ⟨UInt16.toNat_inj.mp hport, UInt16.toNat_inj.mp (by omega), hdescription⟩

theorem MemoryRange.text_determines :
    Determines (fun r s => OneLine r.description ∧ OneLine s.description) text LooksLike := by
  have hrange := range_determines (fun r : MemoryRange => r.physical_address.toNat)
    (fun r => (r.physical_address + r.length).toNat) description
  refine hrange.consequence (fun _ _ h => h) fun r s _ ⟨haddress, hlast, hdescription⟩ => ?_
  have hsame : r.physical_address = s.physical_address := UInt64.toNat_inj.mp haddress
  have hsum := UInt64.toNat_inj.mp hlast
  rw [hsame] at hsum
  exact ⟨hsame, (UInt64.add_right_inj _).mp hsum, hdescription⟩

/-- A section, followed by a text that begins neither like its title nor like a line of it. -/
theorem section_determines {α κ : Type} {P Q : α → α → Prop} {p q : κ → κ → Prop} {text : κ → List Char}
    {title : String} {ranges : α → List κ} {rest : α → List Char} (x : Char) (w : List Char)
    (htitle : title.toList = x :: w) (htext : Determines p text q) (hstart : ∀ k, ∃ t, text k = ' ' :: t)
    (hnext : ∀ a, ∃ y t, rest a = y :: t ∧ y ≠ ' ' ∧ y ≠ x)
    (hP : ∀ a b, P a b → ∀ k ∈ ranges a, ∀ m ∈ ranges b, p k m)
    (hrest : Determines (fun a b => P a b ∧ List.Forall₂ q (ranges a) (ranges b)) rest Q) :
    Determines P (fun a => sectionText title text (ranges a) ++ rest a) Q := by
  have hbranch : (fun a => sectionText title text (ranges a) ++ rest a) =
      fun a => if ranges a = [] then rest a
        else title.toList ++ ['\n'] ++ ((ranges a).flatMap text ++ rest a) := by
    funext a
    cases hranges : ranges a with
    | nil => simp [sectionText]
    | cons k l => simp [sectionText]
  rw [hbranch]
  refine .ite_shown ?_ ?_ ?_
  · intro a b s t _ _ heq
    obtain ⟨y, u, ha, -, hy⟩ := hnext a
    rw [ha, htitle] at heq
    exact hy (List.cons.inj heq).1
  · refine hrest.consequence (fun a b ⟨hab, ha, hb⟩ => ⟨hab, ?_⟩) fun _ _ _ h => h
    rw [ha, hb]
    exact .nil
  · refine .append (.append (.literal _) (.literal _)) (.many (c := ' ') htext hstart ?_ ?_ ?_)
    · intro a
      obtain ⟨y, u, ha, hy, -⟩ := hnext a
      exact ⟨y, u, ha, hy⟩
    · exact fun a b h => hP a b h.1
    · exact hrest.consequence (fun a b ⟨h, hranges⟩ => ⟨h.1, hranges⟩) fun _ _ _ h => h

namespace Device

theorem heading_determines : Determines (fun d e => OneLined d ∧ OneLined e) heading
    fun d e => (OneLined d ∧ OneLined e) ∧ d.caption = e.caption ∧ d.id = e.id := by
  have hcaption {d : Device} (h : OneLined d) : '\n' ∉ d.caption := by
    have hdash : '\n' ∉ " - ".toList := by decide
    simp only [caption, List.mem_append, not_or]
    exact ⟨⟨newline_not_mem h.name, hdash⟩, newline_not_mem h.description⟩
  have hline {d : Device} (h : OneLined d) :
      '\n' ∉ d.caption ++ ("Id:".toList ++ ' ' :: numeral .hex true d.id.toNat) := by
    have hid : '\n' ∉ "Id:".toList := by decide
    have hnumber := not_mem_numeral_showbase (c := '\n') (by decide) (by decide) d.id.toNat
    simp only [List.mem_append, List.mem_cons, not_or]
    exact ⟨hcaption h, hid, by decide, hnumber⟩
  refine .keep (.terminated (fun d e ⟨hd, he⟩ => ⟨hline hd, hline he⟩) fun d e _ h => ?_)
  -- The id is what is after the last space.
  have hspace (n : ℕ) : ' ' ∉ numeral .hex true n := not_mem_numeral_showbase (by decide) (by decide) n
  rw [← List.append_assoc, ← List.append_assoc] at h
  obtain ⟨hbefore, hid⟩ := append_cons_inj_right (hspace _) (hspace _) h
  exact ⟨List.append_cancel_right hbefore, UInt64.toNat_inj.mp (numeral_injective hid)⟩

/-- The text of a device, whatever follows it, tells what it looks like. -/
theorem text_determines : Determines (fun d e => OneLined d ∧ OneLined e) text LooksLike := by
  have hstart (first last : ℕ) (description : List UInt8) :
      ∃ t, rangeText first last description = ' ' :: t := ⟨_, rfl⟩
  refine .append heading_determines (section_determines 'P' _ rfl PortRange.text_determines
    (fun _ => hstart _ _ _) ?_ ?_ (section_determines 'M' _ rfl MemoryRange.text_determines
      (fun _ => hstart _ _ _) ?_ ?_ ?_))
  · intro d
    unfold sectionText
    split_ifs
    · exact ⟨'\n', [], rfl, by decide⟩
    · exact ⟨'M', _, rfl, by decide⟩
  · exact fun d e ⟨⟨hd, he⟩, _⟩ r hr s hs => ⟨hd.port_ranges r hr, he.port_ranges s hs⟩
  · exact fun d => ⟨'\n', [], rfl, by decide⟩
  · exact fun d e ⟨⟨⟨hd, he⟩, _⟩, _⟩ r hr s hs => ⟨hd.memory_ranges r hr, he.memory_ranges s hs⟩
  · exact (Determines.literal _).consequence (fun _ _ h => h)
      fun d e ⟨⟨⟨_, hcaption, hid⟩, hports⟩, hmemory⟩ _ => ⟨hcaption, hid, hports, hmemory⟩

/-- Devices that look alike have the same text. -/
theorem LooksLike.text_eq {d e : Device} (h : LooksLike d e) : d.text = e.text := by
  have hflat {κ : Type} {q : κ → κ → Prop} (title : String) (text : κ → List Char)
      (htext : ∀ k m, q k m → text k = text m) {l m : List κ} (hlm : List.Forall₂ q l m) :
      sectionText title text l = sectionText title text m := by
    have hmap : l.map text = m.map text := by
      induction hlm with
      | nil => rfl
      | cons hkm _ ih => rw [List.map_cons, List.map_cons, htext _ _ hkm, ih]
    have hempty : l.isEmpty = m.isEmpty := by cases hlm <;> rfl
    rw [sectionText, sectionText, hempty, List.flatMap_def, List.flatMap_def, hmap]
  have hports := hflat "Port mappings:" PortRange.text
    (fun r s ⟨h1, h2, h3⟩ => by rw [PortRange.text, PortRange.text, h1, h2, h3]) h.port_ranges
  have hmemory := hflat "Memory mappings:" MemoryRange.text
    (fun r s ⟨h1, h2, h3⟩ => by rw [MemoryRange.text, MemoryRange.text, h1, h2, h3]) h.memory_ranges
  unfold text heading
  rw [h.caption, h.id, hports, hmemory]

end Device

end RvnSyncPoint
