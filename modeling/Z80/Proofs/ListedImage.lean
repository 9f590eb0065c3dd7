import Mathlib
import Z80.Proofs.MemoryMap
import Z80.Proofs.Program
import Z80.Proofs.RowText

namespace Z80

namespace Listing

open Text (Palette)

section Chunks

theorem length_of_rest {rest : List UInt8} (hnil : rest ≠ [])
    (hfour : ∀ a b c d more, rest ≠ a :: b :: c :: d :: more) :
    0 < rest.length ∧ rest.length < 4 := by
  match rest with
  | [] => exact absurd rfl hnil
  | [_] | [_, _] | [_, _, _] => simp
  | a :: b :: c :: d :: more => exact absurd rfl (hfour a b c d more)

theorem flatten_chunks (bytes : List UInt8) : (chunks bytes).flatten = bytes := by
  fun_induction chunks bytes with
  | case1 => rfl
  | case2 a b c d rest ih => simp [ih]
  | case3 rest hnil hfour => simp

theorem length_chunks (bytes : List UInt8) : (chunks bytes).length = (bytes.length + 3) / 4 := by
  fun_induction chunks bytes with
  | case1 => rfl
  | case2 a b c d rest ih =>
      simp only [List.length_cons, ih]
      omega
  | case3 rest hnil hfour =>
      have := length_of_rest hnil hfour
      simp only [List.length_singleton]
      omega

def Fours : List (List UInt8) → Prop
  | [] => True
  | chunk :: rest => (chunk.length = 4 ∨ chunk.length < 4 ∧ rest = []) ∧ Fours rest

theorem fours_chunks (bytes : List UInt8) : Fours (chunks bytes) := by
  fun_induction chunks bytes with
  | case1 => trivial
  | case2 a b c d rest ih => exact ⟨.inl rfl, ih⟩
  | case3 rest hnil hfour => exact ⟨.inr ⟨(length_of_rest hnil hfour).2, rfl⟩, trivial⟩

theorem Fours.length_le {rows : List (List UInt8)} (h : Fours rows) :
    ∀ chunk ∈ rows, chunk.length ≤ 4 := by
  induction rows with
  | nil => simp
  | cons chunk rest ih =>
      intro other hother
      rcases List.mem_cons.mp hother with rfl | hother
      · have := h.1
        omega
      · exact ih h.2 other hother

end Chunks

def byteRows : UInt16 → List (List UInt8) → List Row
  | _, [] => []
  | address, chunk :: rest => ⟨address, chunk, none⟩ :: byteRows (address + 4) rest

def shownLine (address : UInt16) (bytes : List UInt8) (source : Nat × String) : List Row :=
  match chunks bytes with
  | [] => [⟨address, [], some source⟩]
  | chunk :: rest => ⟨address, chunk, some source⟩ :: byteRows (address + 4) rest

section Lines

variable {palette : Palette} {address : UInt16} {bytes : List UInt8} {source : Nat × String}
  {rows : List (List UInt8)}

theorem map_read?_moreRows (h : Fours rows) (address : UInt16) :
    (moreRows palette address rows).map (Row.read? palette) = (byteRows address rows).map some := by
  induction rows generalizing address with
  | nil => rfl
  | cons chunk rest ih =>
      have hchunk := h.length_le chunk (List.mem_cons_self ..)
      simp only [moreRows, byteRows, List.map_cons, read?_more hchunk, ih h.2]

theorem map_read?_lineRows (palette : Palette) (address : UInt16) (bytes : List UInt8)
    (source : Nat × String) :
    (lineRows palette address bytes source.1 source.2).map (Row.read? palette) =
      (shownLine address bytes source).map some := by
  have hfours := fours_chunks bytes
  unfold lineRows shownLine
  cases h : chunks bytes with
  | nil => simp [read?_lineRow]
  | cons chunk rest =>
      rw [h] at hfours
      have hchunk := hfours.length_le chunk (List.mem_cons_self ..)
      simp only [List.map_cons, read?_lineRow hchunk, map_read?_moreRows hfours.2]

theorem length_byteRows (address : UInt16) (rows : List (List UInt8)) :
    (byteRows address rows).length = rows.length := by
  induction rows generalizing address with
  | nil => rfl
  | cons chunk rest ih => simp [byteRows, ih]

theorem bytes_byteRows (address : UInt16) (rows : List (List UInt8)) :
    (byteRows address rows).flatMap Row.bytes = rows.flatten := by
  induction rows generalizing address with
  | nil => rfl
  | cons chunk rest ih => simp [byteRows, ih]

theorem source?_byteRows (address : UInt16) (rows : List (List UInt8)) :
    ∀ row ∈ byteRows address rows, row.source? = none := by
  induction rows generalizing address with
  | nil => simp [byteRows]
  | cons chunk rest ih =>
      intro row hrow
      rcases List.mem_cons.mp hrow with rfl | hrow
      · rfl
      · exact ih _ row hrow

theorem length_shownLine (address : UInt16) (bytes : List UInt8) (source : Nat × String) :
    (shownLine address bytes source).length = max 1 ((bytes.length + 3) / 4) := by
  have hlength := length_chunks bytes
  unfold shownLine
  cases h : chunks bytes with
  | nil =>
      rw [h] at hlength
      simp only [List.length_nil, List.length_singleton] at hlength ⊢
      omega
  | cons chunk rest =>
      rw [h] at hlength
      simp only [List.length_cons, length_byteRows] at hlength ⊢
      omega

theorem bytes_shownLine (address : UInt16) (bytes : List UInt8) (source : Nat × String) :
    (shownLine address bytes source).flatMap Row.bytes = bytes := by
  have hflatten := flatten_chunks bytes
  unfold shownLine
  cases h : chunks bytes with
  | nil => simpa [h] using hflatten
  | cons chunk rest => simpa [h, bytes_byteRows] using hflatten

theorem source?_shownLine (address : UInt16) (bytes : List UInt8) (source : Nat × String) :
    ∃ first more, shownLine address bytes source = first :: more ∧ first.source? = some source ∧
      ∀ row ∈ more, row.source? = none := by
  unfold shownLine
  cases h : chunks bytes with
  | nil => exact ⟨_, [], rfl, rfl, by simp⟩
  | cons chunk rest => exact ⟨_, _, rfl, rfl, source?_byteRows _ rest⟩

def Steps : UInt16 → List Row → Prop
  | _, [] => True
  | address, row :: rows =>
      row.address = address ∧ Steps (address + UInt16.ofNat row.bytes.length) rows

theorem steps_byteRows (h : Fours rows) (address : UInt16) :
    Steps address (byteRows address rows) := by
  induction rows generalizing address with
  | nil => trivial
  | cons chunk rest ih =>
      refine ⟨rfl, ?_⟩
      rcases h.1 with hfour | ⟨-, rfl⟩
      · have hrest := ih h.2 (address + 4)
        simpa [hfour] using hrest
      · trivial

theorem steps_shownLine (address : UInt16) (bytes : List UInt8) (source : Nat × String) :
    Steps address (shownLine address bytes source) := by
  have hfours := fours_chunks bytes
  unfold shownLine
  cases h : chunks bytes with
  | nil => exact ⟨rfl, trivial⟩
  | cons chunk rest =>
      rw [h] at hfours
      have hsteps := steps_byteRows hfours address
      exact ⟨rfl, hsteps.2⟩

end Lines

end Listing

namespace Image

def part (image : Image) (r : Emission) : List UInt8 :=
  (image.bytes.drop r.offset).take r.length

def writtenBy (image : Image) (loc : Location) : List UInt8 :=
  (image.records.filter fun r => r.location == loc).flatMap image.part

def addressAt? (image : Image) (place : Nat) : Option UInt16 :=
  image.records.findSome? fun r =>
    if r.offset ≤ place ∧ place < r.offset + r.length then
      some (r.address + UInt16.ofNat (place - r.offset))
    else none

variable {image : Image} {rs : List Emission} {r : Emission} {start stop place : Nat}
  {loc : Location} {entries : List (Location × UInt16)}

theorem filter_eq_nil_of_not_mem (h : loc ∉ rs.map Emission.location) :
    (rs.filter fun r => r.location == loc) = [] := by
  rw [List.filter_eq_nil_iff]
  intro r hr heq
  exact h (List.mem_map.mpr ⟨r, hr, by simpa using heq⟩)

theorem filter_eq_find? (h : (rs.map Emission.location).Nodup) (loc : Location) :
    (rs.filter fun r => r.location == loc) = (rs.find? fun r => r.location == loc).toList := by
  induction rs with
  | nil => rfl
  | cons r rs ih =>
      obtain ⟨hnot, hrest⟩ := List.nodup_cons.mp h
      by_cases hr : r.location = loc
      · have hnil := filter_eq_nil_of_not_mem (hr ▸ hnot)
        simp [hr, hnil]
      · simpa [hr] using ih hrest

theorem lineBytes?_getD (h : (image.records.map Emission.location).Nodup) (loc : Location) :
    (image.lineBytes? loc).getD [] = image.writtenBy loc := by
  rw [lineBytes?, writtenBy, filter_eq_find? h]
  cases image.records.find? fun r => r.location == loc with
  | none => rfl
  | some r => simp [part]

theorem offset_of_tiles : ∀ {rs : List Emission} {start stop : Nat}, Tiles start rs stop →
    ∀ r ∈ rs, start ≤ r.offset ∧ r.offset + r.length ≤ stop := by
  intro rs
  induction rs with
  | nil => simp
  | cons first rs ih =>
      intro start stop h r hr
      have hsum := h.2.2.sum
      rcases List.mem_cons.mp hr with rfl | hr
      · have := h.1
        omega
      · have := ih h.2.2 r hr
        omega

theorem findSome?_tiles {f : Emission → UInt16} : ∀ {rs : List Emission} {start stop : Nat},
    Tiles start rs stop → ∀ r ∈ rs, r.offset ≤ place → place < r.offset + r.length →
    (rs.findSome? fun r => if r.offset ≤ place ∧ place < r.offset + r.length then some (f r)
      else none) = some (f r) := by
  intro rs
  induction rs with
  | nil => simp
  | cons first rs ih =>
      intro start stop h r hr hle hlt
      rcases List.mem_cons.mp hr with rfl | hr
      · rw [List.findSome?_cons, if_pos ⟨hle, hlt⟩]
      · have hlater := offset_of_tiles h.2.2 r hr
        have hnot : ¬(first.offset ≤ place ∧ place < first.offset + first.length) := by
          have := h.1
          omega
        rw [List.findSome?_cons, if_neg hnot]
        exact ih h.2.2 r hr hle hlt

def Laid (image : Image) : Nat → List (Location × UInt16) → Prop
  | place, [] => place = image.size
  | place, (loc, address) :: rest =>
      (image.bytes.drop place).take (image.writtenBy loc).length = image.writtenBy loc ∧
      (∀ i < (image.writtenBy loc).length,
        image.addressAt? (place + i) = some (address + UInt16.ofNat i)) ∧
      Laid image (place + (image.writtenBy loc).length) rest

structure Follows (image : Image) (entries : List (Location × UInt16)) : Prop where
  tiles : Tiles 0 image.records image.size
  places : (image.records.map fun r => (r.location, r.address)).Sublist entries
  distinct : (entries.map Prod.fst).Nodup

theorem sublist_locations (h : (rs.map fun r => (r.location, r.address)).Sublist entries) :
    (rs.map Emission.location).Sublist (entries.map Prod.fst) := by
  have hmap := h.map Prod.fst
  rwa [List.map_map] at hmap

theorem laid_last (tiles : Tiles 0 image.records image.size) :
    ∀ {entries : List (Location × UInt16)} {rs : List Emission} {start : Nat},
    (rs.map fun r => (r.location, r.address)).Sublist entries → (entries.map Prod.fst).Nodup →
    Tiles start rs image.size → (∀ r ∈ rs, r ∈ image.records) →
    (∀ entry ∈ entries, (image.records.filter fun r => r.location == entry.1) =
      rs.filter fun r => r.location == entry.1) →
    image.Laid start entries := by
  intro entries
  induction entries with
  | nil =>
      intro rs start hsub _ hrs _ _
      rw [List.sublist_nil, List.map_eq_nil_iff] at hsub
      subst hsub
      exact hrs
  | cons entry entries ih =>
      intro rs start hsub hdistinct hrs hmem hfilter
      obtain ⟨hnot, hrest⟩ := List.nodup_cons.mp hdistinct
      have hfirst := hfilter entry (List.mem_cons_self ..)
      rcases List.sublist_cons_iff.mp hsub with hsub | ⟨more, hcons, hsub⟩
      · -- The line wrote nothing.
        have hnone : image.writtenBy entry.1 = [] := by
          rw [writtenBy, hfirst, filter_eq_nil_of_not_mem
            fun h => hnot ((sublist_locations hsub).subset h)]
          rfl
        have hlaid := ih hsub hrest hrs hmem fun e he => hfilter e (List.mem_cons_of_mem _ he)
        refine ⟨by rw [hnone]; rfl, ?_, by rw [hnone]; exact hlaid⟩
        intro i hi
        rw [hnone] at hi
        exact absurd hi (Nat.not_lt_zero i)
      · obtain ⟨r, rs, rfl, rfl, rfl⟩ := List.map_eq_cons_iff.mp hcons
        have hr := hmem r (List.mem_cons_self ..)
        have hother : r.location ∉ rs.map Emission.location :=
          fun h => hnot ((sublist_locations hsub).subset h)
        have hpart : image.writtenBy r.location = image.part r := by
          rw [writtenBy, hfirst]
          simp [filter_eq_nil_of_not_mem hother]
        have hend := offset_of_tiles tiles r hr
        have hlength : (image.part r).length = r.length := by
          have : image.size = image.bytes.length := rfl
          rw [part, List.length_take, List.length_drop]
          omega
        obtain ⟨hoffset, -, hlater⟩ := hrs
        refine ⟨?_, ?_, ?_⟩
        · rw [hpart, hlength, part, hoffset]
        · intro i hi
          rw [hpart, hlength] at hi
          have hplace := @findSome?_tiles (start + i) (fun r => r.address +
            UInt16.ofNat (start + i - r.offset)) _ _ _ tiles r hr (by omega) (by omega)
          rw [addressAt?, hplace, hoffset, Nat.add_sub_cancel_left]
        · rw [hpart, hlength]
          refine ih hsub hrest hlater (fun r' hr' => hmem r' (List.mem_cons_of_mem _ hr')) ?_
          intro e he
          have hne : ¬r.location = e.1 := by
            intro heq
            exact hnot (List.mem_map.mpr ⟨e, he, heq.symm⟩)
          rw [hfilter e (List.mem_cons_of_mem _ he)]
          simp [hne]

theorem Follows.laid (h : image.Follows entries) : image.Laid 0 entries :=
  laid_last h.tiles h.places h.distinct h.tiles (fun _ hr => hr) fun _ _ => rfl

theorem Follows.locations (h : image.Follows entries) :
    (image.records.map Emission.location).Nodup :=
  h.distinct.sublist (sublist_locations h.places)

theorem Laid.bytes : ∀ {entries : List (Location × UInt16)} {place : Nat},
    image.Laid place entries →
      (entries.flatMap fun e => image.writtenBy e.1) = image.bytes.drop place := by
  intro entries
  induction entries with
  | nil =>
      intro place h
      exact (List.drop_eq_nil_of_le h.ge).symm
  | cons entry entries ih =>
      intro place h
      obtain ⟨hpart, -, hrest⟩ := h
      calc
        _ = image.writtenBy entry.1 ++
            image.bytes.drop (place + (image.writtenBy entry.1).length) := by
          rw [List.flatMap_cons, ih hrest]
        _ = (image.bytes.drop place).take (image.writtenBy entry.1).length ++
            (image.bytes.drop place).drop (image.writtenBy entry.1).length := by
          rw [hpart, List.drop_drop]
        _ = image.bytes.drop place := List.take_append_drop _ _

end Image

namespace Writing

theorem step_image (symbols : Symbols) (stamp : BuildStamp) (w : Writing)
    (line : PlannedLine × Nat) :
    ∃ bytes, (w.step symbols stamp line).image =
      w.image.emit line.1.location line.1.here bytes := by
  have hcheck : (w.checkAddress line.1).image = w.image := by
    unfold checkAddress
    split <;> rfl
  simp only [step]
  cases line.1.encode symbols stamp (w.fixups.takeWhile fun f => f.line == line.2) with
  | error e => exact ⟨[], hcheck⟩
  | ok bytes =>
      unfold emit
      dsimp only
      split
      · exact ⟨bytes, by rw [hcheck]⟩
      · exact ⟨[], hcheck⟩

theorem foldl_step_records (symbols : Symbols) (stamp : BuildStamp) (address : UInt16)
    (fixups : List Fixup) (lines : List (PlannedLine × Nat)) :
    Tiles 0 (lines.foldl (step symbols stamp) (start address fixups)).image.records
        (lines.foldl (step symbols stamp) (start address fixups)).image.size ∧
      ((lines.foldl (step symbols stamp) (start address fixups)).image.records.map
        fun r => (r.location, r.address)).Sublist
        (lines.map fun line => (line.1.location, line.1.here)) := by
  induction lines using List.reverseRecOn with
  | nil => exact ⟨rfl, .slnil⟩
  | append_singleton lines line ih =>
      obtain ⟨bytes, himage⟩ := step_image symbols stamp
        (lines.foldl (step symbols stamp) (start address fixups)) line
      rw [List.foldl_append, List.foldl_cons, List.foldl_nil, himage]
      refine ⟨Image.emit_tiles ih.1 _ _ _, ?_⟩
      rw [List.map_append]
      by_cases hbytes : bytes = []
      · rw [hbytes, Image.emit_nil]
        exact ih.2.trans (List.sublist_append_left _ _)
      · rw [Image.emit_records _ _ _ hbytes, List.map_append]
        exact ih.2.append (List.Sublist.refl _)

end Writing

namespace Layout

variable {layout : Layout} {env : Environment} {source : List (Location × Except Error Line)}

theorem planned_places (start : layout.planned = [])
    (clean : (reached env layout source source.length).errors = []) {n : Nat}
    (hn : n ≤ source.length) :
    ((reached env layout source n).planned.map fun line => (line.location, line.here)).Sublist
      (reached env layout source n).addresses := by
  induction n with
  | zero => simp [reached, start]
  | succ n ih =>
      obtain ⟨⟨loc, result⟩, hread⟩ : ∃ read, source[n]? = some read :=
        ⟨_, List.getElem?_eq_getElem hn⟩
      obtain ⟨line, labelled, -, htakes⟩ := takes_of_clean clean hread
      rw [htakes.frame.2.2]
      rcases htakes.plans with ⟨hstays, -⟩ | ⟨statement, item, fixups, -, -, -, hplanned, -⟩
      · rw [hstays.planned]
        exact (ih (Nat.le_of_succ_le hn)).trans (List.sublist_append_left _ _)
      · rw [hplanned, List.map_append]
        exact (ih (Nat.le_of_succ_le hn)).append (List.Sublist.refl _)

end Layout

namespace Listing

open Text (Palette)

variable {palette : Palette} {image : Image} {rows more : List Row}

def Shows (image : Image) : Nat → List Row → Prop
  | _, [] => True
  | place, row :: rows =>
      (row.bytes ≠ [] → image.addressAt? place = some row.address) ∧
      Shows image (place + row.bytes.length) rows

theorem shows_of_steps : ∀ {rows : List Row} {address : UInt16} {place : Nat}, Steps address rows →
    (∀ i < (rows.flatMap Row.bytes).length,
      image.addressAt? (place + i) = some (address + UInt16.ofNat i)) → Shows image place rows := by
  intro rows
  induction rows with
  | nil => exact fun _ _ => trivial
  | cons row rows ih =>
      intro address place hsteps hwritten
      rw [List.flatMap_cons, List.length_append] at hwritten
      refine ⟨?_, ih hsteps.2 ?_⟩
      · intro hbytes
        have hpos := List.length_pos_of_ne_nil hbytes
        rw [hsteps.1, ← Nat.add_zero place, hwritten 0 (by omega)]
        simp
      · intro i hi
        rw [Nat.add_assoc, hwritten _ (by omega), UInt16.ofNat_add, add_assoc]

theorem Shows.append : ∀ {rows : List Row} {place : Nat}, Shows image place rows →
    Shows image (place + (rows.flatMap Row.bytes).length) more →
      Shows image place (rows ++ more) := by
  intro rows
  induction rows with
  | nil => exact fun _ hmore => hmore
  | cons row rows ih =>
      intro place h hmore
      refine ⟨h.1, ih h.2 ?_⟩
      rwa [List.flatMap_cons, List.length_append, ← Nat.add_assoc] at hmore

theorem Shows.address {row : Row} : ∀ {rows : List Row} {place : Nat},
    Shows image place (rows ++ row :: more) → row.bytes ≠ [] →
      image.addressAt? (place + (rows.flatMap Row.bytes).length) = some row.address := by
  intro rows
  induction rows with
  | nil => exact fun h => h.1
  | cons first rows ih =>
      intro place h hbytes
      rw [List.flatMap_cons, List.length_append, ← Nat.add_assoc]
      exact ih h.2 hbytes

def shownEntry (sources : List Source) (image : Image) (entry : Location × UInt16) : List Row :=
  shownLine entry.2 (image.writtenBy entry.1) (entry.1.line, sourceLine sources entry.1)

theorem shows_of_laid (sources : List Source) :
    ∀ {entries : List (Location × UInt16)} {place : Nat}, image.Laid place entries →
      Shows image place (entries.flatMap (shownEntry sources image)) := by
  intro entries
  induction entries with
  | nil => exact fun _ => trivial
  | cons entry entries ih =>
      intro place h
      obtain ⟨-, hwritten, hrest⟩ := h
      have hbytes : (shownEntry sources image entry).flatMap Row.bytes = image.writtenBy entry.1 :=
        bytes_shownLine ..
      rw [List.flatMap_cons]
      refine Shows.append (shows_of_steps (steps_shownLine ..) ?_) ?_
      · intro i hi
        exact hwritten i (by rwa [← hbytes])
      · rw [hbytes]
        exact ih hrest

theorem filterMap_read?_rowsFrom (palette : Palette)
    (distinct : (image.records.map Emission.location).Nodup) (sources : List Source)
    (file : Option Nat) (entries : List (Location × UInt16)) :
    (rowsFrom palette sources image file entries).filterMap (Row.read? palette) =
      entries.flatMap (shownEntry sources image) := by
  induction entries generalizing file with
  | nil => rfl
  | cons entry entries ih =>
      obtain ⟨loc, address⟩ := entry
      have hheader : (if file = some loc.file then [] else
          [header (sourceName sources loc.file)]).filterMap (Row.read? palette) = [] := by
        split
        · rfl
        · simp [read?_header]
      have hline : (lineRows palette address (image.writtenBy loc) loc.line
          (sourceLine sources loc)).filterMap (Row.read? palette) =
            shownEntry sources image (loc, address) := by
        have hread := map_read?_lineRows palette address (image.writtenBy loc)
          (loc.line, sourceLine sources loc)
        have hsome := congrArg (List.filterMap id) hread
        rwa [List.filterMap_map, List.filterMap_map, Function.id_comp, Function.id_comp,
          List.filterMap_some] at hsome
      rw [rowsFrom, List.filterMap_append, List.filterMap_append, hheader, List.nil_append,
        Image.lineBytes?_getD distinct, hline, ih, List.flatMap_cons]

theorem header_of_unread {sources : List Source} {text : String} {file : Option Nat}
    {entries : List (Location × UInt16)} (h : text ∈ rowsFrom palette sources image file entries)
    (hunread : Row.read? palette text = none) :
    ∃ entry ∈ entries, text = header (sourceName sources entry.1.file) := by
  induction entries generalizing file with
  | nil => cases h
  | cons entry entries ih =>
      obtain ⟨loc, address⟩ := entry
      rw [rowsFrom, List.mem_append, List.mem_append] at h
      rcases h with (hheader | hline) | hrest
      · split at hheader
        · cases hheader
        · exact ⟨_, List.mem_cons_self .., List.mem_singleton.mp hheader⟩
      · -- The rows of a line are all read.
        have hread := map_read?_lineRows palette address ((image.lineBytes? loc).getD [])
          (loc.line, sourceLine sources loc)
        have hmem := List.mem_map_of_mem (f := Row.read? palette) hline
        rw [hread, hunread] at hmem
        obtain ⟨row, -, hnone⟩ := List.mem_map.mp hmem
        cases hnone
      · obtain ⟨entry, hentry, htext⟩ := ih hrest
        exact ⟨entry, List.mem_cons_of_mem _ hentry, htext⟩

end Listing

section Sources

variable {files : List SourceFile} {source : Location × String}

theorem sourceLine_of_mem (h : source ∈ sourceLines files) :
    source.2 = Listing.sourceLine (Listing.sources files) source.1 ∧
      ∃ file ∈ files, file.name = Listing.sourceName (Listing.sources files) source.1.file := by
  obtain ⟨⟨file, i⟩, hfile, hline⟩ := List.mem_flatMap.mp h
  obtain ⟨⟨line, n⟩, hn, rfl⟩ := List.mem_map.mp hline
  have hsource : (Listing.sources files)[i]? = some (file.name, Text.lines file.text) := by
    rw [Listing.sources, List.getElem?_map, List.mk_mem_zipIdx_iff_getElem?.mp hfile,
      Option.map_some]
  have hlookup : (Text.lines file.text)[n]? = some line := List.mk_mem_zipIdx_iff_getElem?.mp hn
  refine ⟨?_, file, List.fst_mem_of_mem_zipIdx hfile, ?_⟩
  · simp [Listing.sourceLine, hsource, hlookup]
  · simp [Listing.sourceName, hsource]

theorem map_fst_readLines (files : List SourceFile) :
    (readLines files).map Prod.fst = (sourceLines files).map Prod.fst := by
  rw [readLines, List.map_map]
  rfl

end Sources

structure Listing.Lists (image : Image) (source : Location × String) (rows : List Row) : Prop where
  length : rows.length = max 1 (((image.writtenBy source.1).length + 3) / 4)
  bytes : rows.flatMap Row.bytes = image.writtenBy source.1
  first : ∃ first more, rows = first :: more ∧ first.source? = some (source.1.line, source.2) ∧
    ∀ row ∈ more, row.source? = none

theorem Listing.Lists.sources {image : Image} {source : Location × String} {rows : List Row}
    (h : Lists image source rows) : rows.filterMap Row.source? = [(source.1.line, source.2)] := by
  obtain ⟨first, more, rfl, hfirst, hmore⟩ := h.first
  rw [List.filterMap_cons_some hfirst, List.filterMap_eq_nil_iff.mpr hmore]

namespace Config

variable {config : Config} {seconds : Nat} {files : List SourceFile}

theorem addresses_locations (clean : (config.program seconds files).errors = []) :
    (config.program seconds files).addresses.map Prod.fst = (sourceLines files).map Prod.fst := by
  have hlength : (config.program seconds files).addresses.length = (readLines files).length := by
    rw [program_eq]
    exact (Layout.reached_addresses rfl (program_clean clean).1 le_rfl).1
  rw [← map_fst_readLines]
  refine List.ext_getElem? fun n => ?_
  rw [List.getElem?_map, List.getElem?_map]
  cases hread : (readLines files)[n]? with
  | some read => rw [address_recorded clean hread]; rfl
  | none =>
      rw [List.getElem?_eq_none_iff] at hread
      rw [List.getElem?_eq_none (by omega)]
      rfl

theorem written_follows (clean : (config.program seconds files).errors = []) :
    (config.written seconds files).image.Follows (config.program seconds files).addresses := by
  obtain ⟨htiles, hplaces⟩ := Writing.foldl_step_records (config.program seconds files).symbols
    (stampOf seconds files) config.startAddress (config.program seconds files).fixups
    (config.program seconds files).planned.zipIdx
  refine ⟨htiles, hplaces.trans ?_, ?_⟩
  · have hplanned : ((config.program seconds files).planned.map
        fun line => (line.location, line.here)).Sublist
          (config.program seconds files).addresses := by
      rw [program_eq]
      exact Layout.planned_places rfl (program_clean clean).1 le_rfl
    have hzip : ((config.program seconds files).planned.zipIdx.map
        fun line => (line.1.location, line.1.here)) =
          (config.program seconds files).planned.map fun line => (line.location, line.here) := by
      rw [← List.zipIdx_map_fst 0 (config.program seconds files).planned, List.map_map]
      simp
    rwa [hzip]
  · rw [addresses_locations clean, ← map_fst_readLines]
    exact readLines_nodup files

theorem sourceLines_eq (clean : (config.program seconds files).errors = []) :
    sourceLines files = (config.program seconds files).addresses.map
      fun e => (e.1, Listing.sourceLine (Listing.sources files) e.1) := by
  have hmap : sourceLines files = ((sourceLines files).map Prod.fst).map
      fun loc => (loc, Listing.sourceLine (Listing.sources files) loc) := by
    rw [List.map_map]
    refine (List.map_id'' (fun source => rfl) _).symm.trans (List.map_congr_left ?_)
    intro source hsource
    exact Prod.ext rfl (sourceLine_of_mem hsource).1
  rw [hmap, ← addresses_locations clean, List.map_map]
  rfl

theorem listing_shows_image (palette : Text.Palette) {a : Assembly}
    (h : config.assemble seconds files = .ok a) :
    let listing := (Listing.rows palette files a).filterMap (Listing.Row.read? palette)
    listing.filterMap Listing.Row.source? = (sourceLines files).map (fun s => (s.1.line, s.2)) ∧
    listing.flatMap Listing.Row.bytes = a.image.bytes ∧
    (∃ blocks, listing = blocks.flatten ∧
      List.Forall₂ (Listing.Lists a.image) (sourceLines files) blocks) ∧
    (∀ rows row more, listing = rows ++ row :: more → row.bytes ≠ [] →
      a.image.addressAt? (rows.flatMap Listing.Row.bytes).length = some row.address) ∧
    ∀ text ∈ Listing.rows palette files a, Listing.Row.read? palette text = none →
      text = Listing.footer ∨ ∃ file ∈ files, text = Listing.header file.name := by
  intro listing
  obtain ⟨clean, -, rfl⟩ := assemble_eq_ok.mp h
  have hfollows := written_follows clean
  have hsource := sourceLines_eq clean
  have hlisting : listing = (config.program seconds files).addresses.flatMap
      (Listing.shownEntry (Listing.sources files) (config.written seconds files).image) := by
    have hrows := Listing.filterMap_read?_rowsFrom palette hfollows.locations
      (Listing.sources files) none (config.program seconds files).addresses
    simp only [listing, Listing.rows, List.filterMap_append, hrows, List.filterMap_cons,
      Listing.read?_footer, List.filterMap_nil, List.append_nil]
  have hlists : ∀ e, Listing.Lists (config.written seconds files).image
      (e.1, Listing.sourceLine (Listing.sources files) e.1)
      (Listing.shownEntry (Listing.sources files) (config.written seconds files).image e) :=
    fun e => ⟨Listing.length_shownLine .., Listing.bytes_shownLine .., Listing.source?_shownLine ..⟩
  refine ⟨?_, ?_, ⟨(config.program seconds files).addresses.map (Listing.shownEntry
    (Listing.sources files) (config.written seconds files).image), ?_, ?_⟩, ?_, ?_⟩
  · rw [hlisting, hsource, List.filterMap_flatMap, List.map_map, List.map_eq_flatMap]
    simp only [(hlists _).sources]
    rfl
  · rw [hlisting, List.flatMap_assoc]
    simp only [(hlists _).bytes]
    exact hfollows.laid.bytes
  · rw [hlisting, List.flatMap_def]
  · rw [hsource, List.forall₂_map_left_iff, List.forall₂_map_right_iff, List.forall₂_same]
    exact fun e _ => hlists e
  · intro rows row more hsplit hbytes
    have hshows := Listing.shows_of_laid (Listing.sources files) hfollows.laid
    rw [← hlisting, hsplit] at hshows
    simpa using hshows.address hbytes
  · intro text htext hunread
    rcases List.mem_append.mp htext with htext | htext
    · obtain ⟨e, he, rfl⟩ := Listing.header_of_unread htext hunread
      have hmem : (e.1, Listing.sourceLine (Listing.sources files) e.1) ∈ sourceLines files := by
        rw [hsource]
        exact List.mem_map.mpr ⟨e, he, rfl⟩
      obtain ⟨-, file, hfile, hname⟩ := sourceLine_of_mem hmem
      exact .inr ⟨file, hfile, by rw [hname]⟩
    · exact .inl (List.mem_singleton.mp htext)

def twoPages : List SourceFile :=
  [⟨"high", "\torg 0xFFFB\n\tdb 1,2,3,4,5\n"⟩, ⟨"low", "; below\n\torg 0\n\tnop\n"⟩]

theorem twoPages_listed :
    ∃ a, ({} : Config).assemble 0 twoPages = .ok a ∧
      ((Listing.rows .terminal twoPages a).filterMap (Listing.Row.read? .terminal)).flatMap
        Listing.Row.bytes = [1, 2, 3, 4, 5, 0] ∧
      ((Listing.rows .terminal twoPages a).filterMap (Listing.Row.read? .terminal)).filterMap
        Listing.Row.source? =
        [(1, "\torg 0xFFFB"), (2, "\tdb 1,2,3,4,5"), (1, "; below"), (2, "\torg 0"),
          (3, "\tnop")] := by
  have ha := (@assemble_eq_ok {} 0 twoPages _).mpr ⟨by decide +kernel, by decide +kernel, rfl⟩
  obtain ⟨hsources, hbytes, -⟩ := listing_shows_image .terminal ha
  exact ⟨_, ha, hbytes.trans (by decide +kernel), hsources.trans (by decide +kernel)⟩

end Config

end Z80
