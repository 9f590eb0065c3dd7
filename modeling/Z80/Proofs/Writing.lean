import Mathlib
import Z80.Assembly
import Z80.Proofs.DirectEncoding
import Z80.Proofs.Run

namespace Z80

def fixupsFrom : Nat → List PlannedLine → List Fixup
  | _, [] => []
  | n, line :: lines => line.fixups n ++ fixupsFrom (n + 1) lines

theorem fixupsFrom_append (lines more : List PlannedLine) (n : Nat) :
    fixupsFrom n (lines ++ more) = fixupsFrom n lines ++ fixupsFrom (n + lines.length) more := by
  induction lines generalizing n with
  | nil => rfl
  | cons line lines ih =>
      have hn : n + 1 + lines.length = n + (line :: lines).length := by
        simp only [List.length_cons]
        omega
      simp only [List.cons_append, fixupsFrom, ih, hn, List.append_assoc]

theorem fixupsFrom_eq_flatMap (n : Nat) (lines : List PlannedLine) :
    fixupsFrom n lines = (lines.zipIdx n).flatMap fun line => line.1.fixups line.2 := by
  induction lines generalizing n with
  | nil => rfl
  | cons line lines ih => simp [fixupsFrom, ih]

theorem le_line_of_mem_fixupsFrom :
    ∀ {lines : List PlannedLine} {n : Nat}, ∀ f ∈ fixupsFrom n lines, n ≤ f.line := by
  intro lines
  induction lines with
  | nil =>
      intro n f hf
      cases hf
  | cons line lines ih =>
      intro n f hf
      rcases List.mem_append.mp hf with hf | hf
      · exact (PlannedLine.fixups_line f hf).ge
      · exact Nat.le_of_succ_le (ih f hf)

namespace Layout

variable {layout labelled : Layout} {env : Environment}

theorem Plans.fixups_eq {statement : Statement} {item : Item} {fixups : List Fixup}
    (h : labelled.Plans env statement item fixups) (line : PlannedLine) (hi : line.item = item) :
    fixups = line.fixups labelled.planned.length := by
  obtain ⟨location, address, scope, size, item'⟩ := line
  cases hi
  cases h with
  | instruction _ hplan => exact planFixups_eq_openOperands hplan
  | data | org _ | segment _ | align _ _ | fill _ => rfl

def Aligned (layout : Layout) : Prop :=
  layout.errors = [] → layout.fixups = fixupsFrom 0 layout.planned

theorem stepRead_aligned (source : Location × Except Error Line) (h : layout.Aligned) :
    (stepRead env layout source).Aligned := by
  intro clean
  rcases stepRead_cases env layout source with ⟨line, labelled, -, htakes⟩ | ⟨e, -, herr, -⟩
  · obtain ⟨-, herr, -⟩ := htakes.frame
    have hold := h (herr ▸ clean)
    rcases htakes.plans with
      ⟨hstays, hf⟩ | ⟨statement, item, fixups, -, hplans, -, hplanned, -, hf⟩
    · rw [hf, hstays.planned, hold]
    · have hlen : labelled.planned = layout.planned := by
        rw [htakes.labelled_eq.2]
        rfl
      have hown := hplans.fixups_eq (layout.lineOf env.stamp source.1 item) rfl
      rw [hf, hplanned, fixupsFrom_append, hold, hown, hlen]
      simp [fixupsFrom]
  · rw [herr] at clean
    simp at clean

theorem reached_aligned (h : layout.Aligned) (source : List (Location × Except Error Line))
    (n : Nat) : (reached env layout source n).Aligned :=
  reached_induction env source h (fun _ line _ hl => stepRead_aligned line hl) n

theorem planned_slotted (start : layout.planned = [])
    (source : List (Location × Except Error Line)) (n : Nat) :
    ∀ line ∈ (reached env layout source n).planned, line.Slotted := by
  intro planned hmem
  obtain ⟨i, hi⟩ := List.mem_iff_getElem?.mp hmem
  obtain ⟨m, line, labelled, -, origin⟩ := planned_origin start hi
  obtain ⟨statement, fixups, -, hplans⟩ := origin.plans
  have here : labelled.context.here = planned.here := by
    rw [origin.takes.labelled_eq.2, PlannedLine.here, origin.address]
    rfl
  obtain ⟨location, address, scope, size, item⟩ := planned
  cases hplans with
  | instruction _ hplan => exact ⟨labelled.context, _, here, hplan⟩
  | data | org _ | segment _ | align _ _ | fill _ => trivial

end Layout

theorem Image.emit_bytes (image : Image) (loc : Location) (address : UInt16) (data : List UInt8) :
    (image.emit loc address data).bytes = image.bytes ++ data := by
  unfold Image.emit
  cases data with
  | nil => simp
  | cons b data => simp

theorem Image.mem_emit_records {image : Image} {loc : Location} {address : UInt16}
    {data : List UInt8} {r : Emission} (h : r ∈ (image.emit loc address data).records) :
    r ∈ image.records ∨
      (r.location = loc ∧ r.address = address ∧ r.length = data.length ∧ 0 < data.length) := by
  unfold Image.emit at h
  cases data with
  | nil => exact Or.inl (by simpa using h)
  | cons b data =>
      have hmem : r ∈ image.records ++ [⟨loc, address, image.bytes.length, (b :: data).length⟩] := h
      rcases List.mem_append.mp hmem with hold | hnew
      · exact Or.inl hold
      · cases List.mem_singleton.mp hnew
        exact Or.inr ⟨rfl, rfl, rfl, by simp⟩

section OwnFixups

variable {line : PlannedLine} {n : Nat} {later : List Fixup}

theorem takeWhile_own (hlater : ∀ f ∈ later, n < f.line) :
    (line.fixups n ++ later).takeWhile (fun f => f.line == n) = line.fixups n := by
  have hown : ∀ f ∈ line.fixups n, (f.line == n) = true := by
    intro f hf
    simp [PlannedLine.fixups_line f hf]
  rw [List.takeWhile_append_of_pos hown]
  cases later with
  | nil => simp
  | cons f later =>
      have := hlater f (by simp)
      have hne : (f.line == n) = false := by simp; omega
      simp [hne]

theorem dropWhile_own (hlater : ∀ f ∈ later, n < f.line) :
    (line.fixups n ++ later).dropWhile (fun f => f.line == n) = later := by
  have hown : ∀ f ∈ line.fixups n, (f.line == n) = true := by
    intro f hf
    simp [PlannedLine.fixups_line f hf]
  rw [List.dropWhile_append_of_pos hown]
  cases later with
  | nil => simp
  | cons f later =>
      have := hlater f (by simp)
      have hne : (f.line == n) = false := by simp; omega
      simp [hne]

end OwnFixups

def faultsFrom (symbols : Symbols) (stamp : BuildStamp) :
    Nat → List PlannedLine → List (Location × Error)
  | _, [] => []
  | n, line :: lines => match line.encode symbols stamp (line.fixups n) with
      | .ok _ => faultsFrom symbols stamp (n + 1) lines
      | .error e => (line.location, e) :: faultsFrom symbols stamp (n + 1) lines

theorem faultsFrom_forall₂ {symbols : Symbols} {stamp : BuildStamp}
    {emitted : PlannedLine × Nat → Except Error (List UInt8)} :
    ∀ {lines : List PlannedLine} {n : Nat}, (∀ line ∈ lines, line.Slotted) →
    (∀ line ∈ lines.zipIdx n,
      emitted line = line.1.encode symbols stamp (line.1.fixups line.2)) →
    List.Forall₂ (fun fault line => ∃ e, emitted line = .error e ∧ fault = (line.1.location, e))
      (faultsFrom symbols stamp n lines)
      ((lines.zipIdx n).filter fun line => (line.1.direct symbols stamp).isNone) := by
  intro lines
  induction lines with
  | nil =>
      intro n _ _
      exact List.Forall₂.nil
  | cons line lines ih =>
      intro n hslotted hemitted
      have hfirst : emitted (line, n) = line.encode symbols stamp (line.fixups n) :=
        hemitted (line, n) (by simp)
      have hrest := @ih (n + 1) (fun l hl => hslotted l (by simp [hl]))
        (fun l hl => hemitted l (by simp [hl]))
      have hiff := fun bytes =>
        @PlannedLine.encode_eq_ok line symbols stamp bytes (hslotted line (by simp)) n
      cases h : line.encode symbols stamp (line.fixups n) with
      | ok bytes =>
          have hd : line.direct symbols stamp = some bytes := (hiff bytes).mp h
          simpa [faultsFrom, h, hd] using hrest
      | error e =>
          have hd : line.direct symbols stamp = none := by
            rw [Option.eq_none_iff_forall_ne_some]
            intro bytes hbytes
            rw [(hiff bytes).mpr hbytes] at h
            cases h
          simp only [faultsFrom, h, List.zipIdx_cons, hd, Option.isNone_none, List.filter_cons_of_pos]
          exact List.Forall₂.cons ⟨e, hfirst.trans h, rfl⟩ hrest

def directImage (symbols : Symbols) (stamp : BuildStamp) (lines : List PlannedLine) : List UInt8 :=
  lines.flatMap fun line => (line.direct symbols stamp).getD []

namespace Writing

variable {symbols : Symbols} {stamp : BuildStamp} {w : Writing} {line : PlannedLine} {n : Nat}
  {later : List Fixup}

theorem step_eq (address : w.address = line.address)
    (fixups : w.fixups = line.fixups n ++ later) (hlater : ∀ f ∈ later, n < f.line) :
    step symbols stamp w (line, n) =
      { w.emit line (line.encode symbols stamp (line.fixups n)) with
        address := line.next
        fixups := later } := by
  have hcheck : w.checkAddress line = w := if_pos address
  simp only [step, fixups, takeWhile_own hlater, dropWhile_own hlater, hcheck]

structure Writes (symbols : Symbols) (stamp : BuildStamp) (n : Nat) (lines : List PlannedLine)
    (w done : Writing) : Prop where
  errors : done.errors = w.errors ++ faultsFrom symbols stamp n lines
  bytes : done.image.bytes = w.image.bytes ++ directImage symbols stamp lines
  records : ∀ r ∈ done.image.records, r ∈ w.image.records ∨
    ∃ line ∈ lines, r.address = line.here ∧ r.length = line.size ∧ 0 < line.size

theorem emit_writes (slotted : line.Slotted) (sound : line.Sound stamp) :
    Writes symbols stamp n [line] w
      (w.emit line (line.encode symbols stamp (line.fixups n))) := by
  cases h : line.encode symbols stamp (line.fixups n) with
  | error e =>
      have hnone : line.direct symbols stamp = none := by
        cases hd : line.direct symbols stamp with
        | none => rfl
        | some bytes =>
            rw [(PlannedLine.encode_eq_ok slotted).mpr hd] at h
            cases h
      refine ⟨?_, ?_, fun r hr => Or.inl hr⟩
      · simp [faultsFrom, h, emit, fail]
      · simp [directImage, hnone, emit, fail]
  | ok bytes =>
      have hd := (PlannedLine.encode_eq_ok slotted).mp h
      have hlen : bytes.length = line.size := (PlannedLine.direct_length hd).trans sound.size.symm
      have hemit : w.emit line (.ok bytes) =
          { w with image := w.image.emit line.location line.here bytes } := if_pos hlen
      rw [hemit]
      refine ⟨?_, ?_, ?_⟩
      · simp [faultsFrom, h]
      · simp [directImage, hd, Image.emit_bytes]
      · intro r hr
        rcases Image.mem_emit_records hr with hold | ⟨-, haddress, hlength, hpos⟩
        · exact Or.inl hold
        · exact Or.inr ⟨line, by simp, haddress, hlength.trans hlen, hlen ▸ hpos⟩

theorem faultsFrom_cons (symbols : Symbols) (stamp : BuildStamp) (n : Nat) (line : PlannedLine)
    (lines : List PlannedLine) :
    faultsFrom symbols stamp n (line :: lines) =
      faultsFrom symbols stamp n [line] ++ faultsFrom symbols stamp (n + 1) lines := by
  simp only [faultsFrom]
  cases line.encode symbols stamp (line.fixups n) with
  | ok bytes => rfl
  | error e => rfl

theorem Writes.cons {mid mid' done : Writing} {lines : List PlannedLine}
    (h : Writes symbols stamp n [line] w mid) (h' : Writes symbols stamp (n + 1) lines mid' done)
    (herrors : mid'.errors = mid.errors) (himage : mid'.image = mid.image) :
    Writes symbols stamp n (line :: lines) w done := by
  refine ⟨?_, ?_, ?_⟩
  · rw [h'.errors, herrors, h.errors, faultsFrom_cons symbols stamp n line lines,
      List.append_assoc]
  · rw [h'.bytes, himage, h.bytes]
    simp [directImage]
  · intro r hr
    rcases h'.records r hr with hr | ⟨line', hline', hr⟩
    · rw [himage] at hr
      rcases h.records r hr with hr | ⟨line', hline', hr⟩
      · exact Or.inl hr
      · cases List.mem_singleton.mp hline'
        exact Or.inr ⟨line, by simp, hr⟩
    · exact Or.inr ⟨line', by simp [hline'], hr⟩

theorem foldl_step : ∀ {lines : List PlannedLine} {n stop : Nat} {w : Writing},
    Chained w.address lines stop → w.fixups = fixupsFrom n lines ++ later →
    (∀ f ∈ later, n + lines.length ≤ f.line) →
    (∀ line ∈ lines, line.Slotted ∧ line.Sound stamp) →
    ((lines.zipIdx n).foldl (step symbols stamp) w).address = stop ∧
      ((lines.zipIdx n).foldl (step symbols stamp) w).fixups = later ∧
      Writes symbols stamp n lines w ((lines.zipIdx n).foldl (step symbols stamp) w) := by
  intro lines
  induction lines with
  | nil =>
      intro n stop w hc hf _ _
      refine ⟨hc, by simpa [fixupsFrom] using hf, ?_, ?_, fun r hr => Or.inl hr⟩
      · simp [faultsFrom]
      · simp [directImage]
  | cons line lines ih =>
      intro n stop w hc hf hlater hlines
      have hfirst := hlines line (by simp)
      have hf' : w.fixups = line.fixups n ++ (fixupsFrom (n + 1) lines ++ later) := by
        rw [hf, fixupsFrom, List.append_assoc]
      have hrest : ∀ f ∈ fixupsFrom (n + 1) lines ++ later, n < f.line := by
        intro f hmem
        rcases List.mem_append.mp hmem with hmem | hmem
        · exact le_line_of_mem_fixupsFrom f hmem
        · have := hlater f hmem
          simp only [List.length_cons] at this
          omega
      have hwrites : Writes symbols stamp n [line] w
          (w.emit line (line.encode symbols stamp (line.fixups n))) :=
        emit_writes hfirst.1 hfirst.2
      have hlater' : ∀ f ∈ later, n + 1 + lines.length ≤ f.line := by
        intro f hmem
        have := hlater f hmem
        simp only [List.length_cons] at this
        omega
      rw [List.zipIdx_cons, List.foldl_cons, step_eq hc.1.symm hf' hrest]
      obtain ⟨haddress, hfixups, hdone⟩ := @ih (n + 1) stop
        { w.emit line (line.encode symbols stamp (line.fixups n)) with
          address := line.next
          fixups := fixupsFrom (n + 1) lines ++ later }
        hc.2 rfl hlater' (fun l hl => hlines l (by simp [hl]))
      exact ⟨haddress, hfixups, hwrites.cons hdone rfl rfl⟩

end Writing

theorem chained_append : ∀ {lines rest : List PlannedLine} {start stop : Nat},
    Chained start (lines ++ rest) stop →
      ∃ mid, Chained start lines mid ∧ Chained mid rest stop := by
  intro lines
  induction lines with
  | nil =>
      intro rest start stop h
      exact ⟨start, rfl, h⟩
  | cons line lines ih =>
      intro rest start stop h
      obtain ⟨mid, hlines, hrest⟩ := ih h.2
      exact ⟨mid, ⟨h.1, hlines⟩, hrest⟩

namespace Layout

variable {layout : Layout} {address : UInt16} {stamp : BuildStamp} {n : Nat}

def writing (layout : Layout) (address : UInt16) (stamp : BuildStamp) (n : Nat) : Writing :=
  (layout.planned.zipIdx.take n).foldl (Writing.step layout.symbols stamp)
    (Writing.start address layout.fixups)

def inTurn (layout : Layout) (address : UInt16) (stamp : BuildStamp) (n : Nat) : List Fixup :=
  (layout.writing address stamp n).fixups.takeWhile fun f => f.line == n

def emitted (layout : Layout) (address : UInt16) (stamp : BuildStamp) (line : PlannedLine × Nat) :
    Except Error (List UInt8) :=
  line.1.encode layout.symbols stamp (layout.inTurn address stamp line.2)

theorem writing_length (layout : Layout) (address : UInt16) (stamp : BuildStamp) :
    layout.writing address stamp layout.planned.length = layout.write address stamp := by
  have hlen : layout.planned.length = layout.planned.zipIdx.length := by simp
  rw [writing, write, hlen, List.take_length]

structure Ready (start : Nat) (stamp : BuildStamp) (layout : Layout) : Prop where
  sound : layout.Sound start stamp
  fixups : layout.fixups = fixupsFrom 0 layout.planned
  slotted : ∀ line ∈ layout.planned, line.Slotted

theorem Ready.writes_first (h : layout.Ready address.toNat stamp)
    {lines rest : List PlannedLine} {stop : Nat} (hl : layout.planned = lines ++ rest)
    (hc : Chained address.toNat lines stop) :
    (layout.writing address stamp lines.length).address = stop ∧
      (layout.writing address stamp lines.length).fixups = fixupsFrom lines.length rest ∧
      Writing.Writes layout.symbols stamp 0 lines (Writing.start address layout.fixups)
        (layout.writing address stamp lines.length) := by
  have htake : layout.planned.zipIdx.take lines.length = lines.zipIdx 0 := by
    rw [hl, List.zipIdx_append]
    exact List.take_left' (by simp)
  have hf : (Writing.start address layout.fixups).fixups =
      fixupsFrom 0 lines ++ fixupsFrom lines.length rest := by
    have hall := h.fixups
    rw [hl, fixupsFrom_append, Nat.zero_add] at hall
    exact hall
  have hlater : ∀ f ∈ fixupsFrom lines.length rest, 0 + lines.length ≤ f.line := by
    intro f hmem
    rw [Nat.zero_add]
    exact le_line_of_mem_fixupsFrom f hmem
  have hlines : ∀ line ∈ lines, line.Slotted ∧ line.Sound stamp := by
    intro line hline
    have hmem : line ∈ layout.planned := by
      rw [hl]
      exact List.mem_append_left rest hline
    exact ⟨h.slotted line hmem, h.sound.lines line hmem⟩
  rw [writing, htake]
  exact Writing.foldl_step hc hf hlater hlines

theorem Ready.reaches (h : layout.Ready address.toNat stamp) {line : PlannedLine}
    (hn : layout.planned[n]? = some line) :
    (layout.writing address stamp n).address = line.address ∧
      layout.inTurn address stamp n = line.fixups n := by
  obtain ⟨hlt, hget⟩ := List.getElem?_eq_some_iff.mp hn
  have hsplit : layout.planned = layout.planned.take n ++ line :: layout.planned.drop (n + 1) := by
    rw [← hget, ← List.drop_eq_getElem_cons hlt, List.take_append_drop]
  have hlen : (layout.planned.take n).length = n := by
    rw [List.length_take]
    omega
  have hchain := h.sound.chained
  rw [hsplit] at hchain
  obtain ⟨mid, hbefore, hafter⟩ := chained_append hchain
  obtain ⟨haddress, hfixups, -⟩ := h.writes_first hsplit hbefore
  rw [hlen] at haddress hfixups
  refine ⟨haddress.trans hafter.1.symm, ?_⟩
  rw [inTurn, hfixups, fixupsFrom]
  exact takeWhile_own fun f hf => le_line_of_mem_fixupsFrom f hf

theorem Ready.emitted_eq (h : layout.Ready address.toNat stamp) {line : PlannedLine × Nat}
    (hn : layout.planned[line.2]? = some line.1) :
    layout.emitted address stamp line =
      line.1.encode layout.symbols stamp (line.1.fixups line.2) := by
  rw [emitted, (h.reaches hn).2]

theorem Ready.emitted_eq_ok (h : layout.Ready address.toNat stamp) {line : PlannedLine × Nat}
    {bytes : List UInt8} (hn : layout.planned[line.2]? = some line.1) :
    layout.emitted address stamp line = .ok bytes ↔
      line.1.direct layout.symbols stamp = some bytes := by
  rw [h.emitted_eq hn]
  exact PlannedLine.encode_eq_ok (h.slotted line.1 (List.mem_of_getElem? hn))

theorem Ready.inTurn_all (h : layout.Ready address.toNat stamp) :
    layout.planned.zipIdx.flatMap (fun line => layout.inTurn address stamp line.2) =
      layout.fixups := by
  rw [h.fixups, fixupsFrom_eq_flatMap, List.flatMap_def, List.flatMap_def]
  congr 1
  refine List.map_congr_left ?_
  intro line hline
  exact (h.reaches (List.mem_zipIdx_iff_getElem?.mp hline)).2

theorem Ready.write_writes (h : layout.Ready address.toNat stamp) :
    Writing.Writes layout.symbols stamp 0 layout.planned (Writing.start address layout.fixups)
      (layout.write address stamp) := by
  have hall : layout.planned = layout.planned ++ [] := by simp
  rw [← writing_length]
  exact (h.writes_first hall h.sound.chained).2.2

theorem Ready.write_faults (h : layout.Ready address.toNat stamp) :
    (layout.write address stamp).errors = faultsFrom layout.symbols stamp 0 layout.planned := by
  simpa [Writing.start] using h.write_writes.errors

theorem Ready.write_errors (h : layout.Ready address.toNat stamp) :
    List.Forall₂ (fun fault line => ∃ e, layout.emitted address stamp line = .error e ∧
        fault = (line.1.location, e))
      (layout.write address stamp).errors
      (layout.planned.zipIdx.filter fun line => (line.1.direct layout.symbols stamp).isNone) := by
  rw [h.write_faults]
  refine faultsFrom_forall₂ h.slotted ?_
  intro line hline
  exact h.emitted_eq (List.mem_zipIdx_iff_getElem?.mp hline)

theorem Ready.write_errors_eq_nil (h : layout.Ready address.toNat stamp) :
    (layout.write address stamp).errors = [] ↔
      ∀ line ∈ layout.planned, (line.direct layout.symbols stamp).isSome := by
  have hfaults := h.write_errors
  constructor
  · intro hnil line hline
    obtain ⟨n, hn⟩ := List.mem_iff_getElem?.mp hline
    rw [hnil, List.forall₂_nil_left_iff, List.filter_eq_nil_iff] at hfaults
    simpa [Option.isSome_iff_ne_none] using
      hfaults (line, n) (List.mem_zipIdx_iff_getElem?.mpr hn)
  · intro hall
    have hnone : (layout.planned.zipIdx.filter fun line =>
        (line.1.direct layout.symbols stamp).isNone) = [] := by
      rw [List.filter_eq_nil_iff]
      intro line hline
      have hmem : line.1 ∈ layout.planned :=
        List.mem_of_getElem? (List.mem_zipIdx_iff_getElem?.mp hline)
      simpa [Option.isSome_iff_ne_none] using hall line.1 hmem
    rw [hnone] at hfaults
    exact List.forall₂_nil_right_iff.mp hfaults

end Layout

end Z80
