import Mathlib
import Z80.Proofs.Lockstep
import Z80.Proofs.Program

namespace Z80

theorem forall₂_mergeSort {α β : Type} {R : α → β → Prop} {le : α → α → Bool} {le' : β → β → Bool}
    (hle : ∀ a a' b b', R a a' → R b b' → le' a' b' = le a b) {xs : List α} {ys : List β}
    (h : List.Forall₂ R xs ys) : List.Forall₂ R (xs.mergeSort le) (ys.mergeSort le') := by
  obtain ⟨hlen, hzip⟩ := List.forall₂_iff_zip.mp h
  have hxs : (xs.zip ys).map Prod.fst = xs := List.map_fst_zip hlen.le
  have hys : (xs.zip ys).map Prod.snd = ys := List.map_snd_zip hlen.ge
  -- Both lists are sorted as the list of pairs is.
  have hleft : ((xs.zip ys).mergeSort fun p q => le p.1 q.1).map Prod.fst =
      ((xs.zip ys).map Prod.fst).mergeSort le := List.map_mergeSort fun _ _ _ _ => rfl
  have hright : ((xs.zip ys).mergeSort fun p q => le p.1 q.1).map Prod.snd =
      ((xs.zip ys).map Prod.snd).mergeSort le' :=
    List.map_mergeSort fun p hp q hq => (hle p.1 p.2 q.1 q.2 (hzip hp) (hzip hq)).symm
  rw [hxs] at hleft
  rw [hys] at hright
  rw [← hleft, ← hright, List.forall₂_map_left_iff, List.forall₂_map_right_iff, List.forall₂_same]
  intro p hp
  exact hzip (List.mem_mergeSort.mp hp)

def Fixup.rename (f : String → String) (fixup : Fixup) : Fixup :=
  { fixup with expr := fixup.expr.rename f }

section Bytes

variable {f : String → String} {ctx ctx' : Context}

theorem openOperands_rename (f : String → String) (line : Nat) :
    ∀ (opcode : List OpcodeItem) (offset : Nat) (bound : List Binding),
      openOperands line offset opcode (bound.map (Binding.rename f)) =
        (openOperands line offset opcode bound).map (Fixup.rename f) := by
  intro opcode
  induction opcode with
  | nil =>
      intro offset bound
      rfl
  | cons item opcode ih =>
      intro offset bound
      cases item with
      | byte b => exact ih (offset + 1) bound
      | slot p =>
          cases bound with
          | nil => rfl
          | cons b bound =>
              simp only [List.map_cons, openOperands, Binding.rename, Expr.isClosed_rename,
                List.map_append, ih]
              split <;> rfl

theorem putFixups_corresponds (hctx : ctx.Renames f ctx') (next : Nat) :
    ∀ (fixups : List Fixup) (bytes : List UInt8),
      Corresponds Eq (putFixups ctx next bytes fixups)
        (putFixups ctx' next bytes (fixups.map (Fixup.rename f))) := by
  intro fixups
  induction fixups with
  | nil =>
      intro bytes
      exact .ok rfl
  | cons fixup fixups ih =>
      intro bytes
      refine (value_corresponds hctx fixup.expr).bind ?_
      rintro v _ rfl
      refine (Corresponds.refl (putOperand next bytes fixup.offset fixup.placeholder v)).bind ?_
      rintro bytes _ rfl
      exact ih bytes

theorem adjustLast_corresponds (hctx : ctx.Renames f ctx') (bytes : List UInt8) (op : BinaryOp)
    (e : Expr) :
    Corresponds Eq (adjustLast ctx bytes op e) (adjustLast ctx' bytes op (e.rename f)) := by
  unfold adjustLast
  cases bytes.getLast? with
  | none => exact .error rfl
  | some last =>
      refine (value_corresponds hctx (.binary op (.number (Int32.ofNat last.toNat)) e)).bind ?_
      rintro v _ rfl
      exact .refl _

theorem appendItem_corresponds (hctx : ctx.Renames f ctx') {stamp stamp' : BuildStamp}
    {loc loc' : Location} (width : DataWidth) (bytes : List UInt8) {item : DataItem}
    (htexts : SameTexts stamp stamp' loc loc' [item]) :
    Corresponds Eq (appendItem ctx stamp loc width bytes item)
      (appendItem ctx' stamp' loc' width bytes (item.rename f)) := by
  cases item with
  | expr e =>
      refine (value_corresponds hctx e).bind ?_
      rintro v _ rfl
      exact .refl _
  | text text adjust =>
      cases adjust with
      | none => exact .ok rfl
      | some adjust => exact adjustLast_corresponds hctx (bytes ++ text) adjust.1 adjust.2
  | predefined p =>
      have htext : stamp'.text loc' p = stamp.text loc p := htexts p (List.mem_singleton_self _)
      simp only [DataItem.rename, appendItem, BuildStamp.bytes, htext]
      exact .ok rfl

theorem appendItems_corresponds (hctx : ctx.Renames f ctx') {stamp stamp' : BuildStamp}
    {loc loc' : Location} (width : DataWidth) :
    ∀ {items : List DataItem} (bytes : List UInt8), SameTexts stamp stamp' loc loc' items →
      Corresponds Eq (appendItems ctx stamp loc width bytes items)
        (appendItems ctx' stamp' loc' width bytes (items.map (DataItem.rename f))) := by
  intro items
  induction items with
  | nil =>
      intro bytes _
      exact .ok rfl
  | cons item items ih =>
      intro bytes htexts
      have hitem : SameTexts stamp stamp' loc loc' [item] := by
        intro p hp
        exact htexts p (List.mem_singleton.mp hp ▸ List.mem_cons_self ..)
      refine (appendItem_corresponds hctx width bytes hitem).bind ?_
      rintro bytes _ rfl
      exact ih bytes fun p hp => htexts p (List.mem_cons_of_mem _ hp)

theorem encodeFill_corresponds (hctx : ctx.Renames f ctx') (count : Nat) (byte : Option Expr)
    (default : UInt8) :
    Corresponds Eq (encodeFill ctx count byte default)
      (encodeFill ctx' count (byte.map (Expr.rename f)) default) := by
  cases byte with
  | none => exact .ok rfl
  | some e =>
      refine (value_corresponds hctx e).bind ?_
      rintro v _ rfl
      exact .refl _

end Bytes

namespace Respelling

variable {r : Respelling} {stamp stamp' : BuildStamp} {table table' : Symbols}
  {line line' : PlannedLine}

theorem SamePlanned.encode (h : r.SamePlanned stamp stamp' line line')
    (htable : r.SameTable table table') (n : Nat) :
    Corresponds Eq (line.encode table stamp (line.fixups n))
      (line'.encode table' stamp' (line'.fixups n)) := by
  obtain ⟨loc, address, scope, size, item⟩ := line
  obtain ⟨loc', address', scope', size', item'⟩ := line'
  obtain ⟨-, haddress, hscope, hsize, hitem, htexts⟩ := h
  simp only at haddress hscope hsize hitem htexts
  subst haddress hscope hsize hitem
  have hctx := htable.context (Or.inr (Eq.refl scope')) (UInt16.ofNat address')
  cases item with
  | instruction selection slots =>
      have hfixups := openOperands_rename (r.name scope') n selection.variant.opcode 0
        selection.bound
      refine (Corresponds.refl (putSlots (advance address' size') selection.variant.template
        slots)).bind ?_
      rintro bytes _ rfl
      simp only [PlannedLine.fixups, Item.rename, Selection.rename, hfixups]
      exact putFixups_corresponds hctx _ _ _
  | data width items => exact appendItems_corresponds hctx width [] (htexts width items rfl)
  | fill count byte default => exact encodeFill_corresponds hctx count byte default
  | org target => exact .ok rfl

structure SameEmission (r : Respelling) (e e' : Emission) : Prop where
  place : r.place e.location e'.location
  address : e'.address = e.address
  offset : e'.offset = e.offset
  length : e'.length = e.length

structure SameImage (r : Respelling) (image image' : Image) : Prop where
  bytes : image'.bytes = image.bytes
  records : List.Forall₂ r.SameEmission image.records image'.records

theorem SameImage.emit {image image' : Image} (h : r.SameImage image image') {loc loc' : Location}
    (hplace : r.place loc loc') (address : UInt16) (data : List UInt8) :
    r.SameImage (image.emit loc address data) (image'.emit loc' address data) := by
  simp only [Image.emit, h.bytes]
  split
  · exact h
  · exact ⟨rfl, forall₂_concat h.records ⟨hplace, rfl, rfl, rfl⟩⟩

structure SameWritten (r : Respelling) (w w' : Writing) : Prop where
  image : r.SameImage w.image w'.image
  errors : List.Forall₂ r.SameFault w.errors w'.errors

theorem SameWritten.emit {w w' : Writing} (h : r.SameWritten w w')
    (hline : r.SamePlanned stamp stamp' line line') {result result' : Except Error (List UInt8)}
    (hresult : Corresponds Eq result result') :
    r.SameWritten (w.emit line result) (w'.emit line' result') := by
  cases hresult with
  | error hkind => exact ⟨h.image, forall₂_concat h.errors ⟨hline.place, hkind⟩⟩
  | @ok bytes _ heq =>
      cases heq
      have hhere : line'.here = line.here := by rw [PlannedLine.here, PlannedLine.here, hline.address]
      simp only [Writing.emit, hline.size, hhere]
      split
      · exact ⟨h.image.emit hline.place line.here bytes, h.errors⟩
      · exact ⟨h.image, forall₂_concat h.errors ⟨hline.place, rfl⟩⟩

theorem SameWritten.foldl {lines lines' : List PlannedLine}
    (htable : r.SameTable table table')
    (hlines : List.Forall₂ (r.SamePlanned stamp stamp') lines lines') :
    ∀ {n stop stop' : Nat} {w w' : Writing}, r.SameWritten w w' →
      Chained w.address lines stop → Chained w'.address lines' stop' →
      w.fixups = fixupsFrom n lines → w'.fixups = fixupsFrom n lines' →
      r.SameWritten ((lines.zipIdx n).foldl (Writing.step table stamp) w)
        ((lines'.zipIdx n).foldl (Writing.step table' stamp') w') := by
  induction hlines with
  | nil =>
      intro n stop stop' w w' h _ _ _ _
      exact h
  | @cons line line' lines lines' hline _ ih =>
      intro n stop stop' w w' h hchain hchain' hfixups hfixups'
      have hlater : ∀ {rest : List PlannedLine}, ∀ f ∈ fixupsFrom (n + 1) rest, n < f.line :=
        fun f hf => le_line_of_mem_fixupsFrom f hf
      rw [List.zipIdx_cons, List.zipIdx_cons, List.foldl_cons, List.foldl_cons,
        Writing.step_eq hchain.1.symm hfixups hlater,
        Writing.step_eq hchain'.1.symm hfixups' hlater]
      -- Each run is at the address of its line, so the operands in turn are those of the line.
      have hwritten := h.emit hline (hline.encode htable n)
      exact ih ⟨hwritten.image, hwritten.errors⟩ hchain.2 hchain'.2 rfl rfl

theorem SameLayout.write {layout layout' : Layout} {address : UInt16}
    (h : r.SameLayout stamp stamp' layout layout') (hready : layout.Ready address.toNat stamp)
    (hready' : layout'.Ready address.toNat stamp') :
    r.SameWritten (layout.write address stamp) (layout'.write address stamp') :=
  SameWritten.foldl h.symbols h.planned ⟨⟨rfl, .nil⟩, .nil⟩ hready.sound.chained
    hready'.sound.chained hready.fixups hready'.fixups

structure SameAssembly (r : Respelling) (a a' : Assembly) : Prop where
  image : r.SameImage a.image a'.image
  symbols : r.SameTable a.symbols a'.symbols

inductive SameResult (r : Respelling) (R : Assembly → Assembly → Prop) :
    Except (List (Location × Error)) Assembly → Except (List (Location × Error)) Assembly → Prop
  | ok {a a' : Assembly} : R a a' → SameResult r R (.ok a) (.ok a')
  | error {faults faults' : List (Location × Error)} : List.Forall₂ r.SameFault faults faults' →
      SameResult r R (.error faults) (.error faults')

theorem SameResult.and_of_ok {R S : Assembly → Assembly → Prop}
    {x x' : Except (List (Location × Error)) Assembly} (h : r.SameResult R x x')
    (hok : ∀ a a', x = .ok a → x' = .ok a' → S a a') :
    r.SameResult (fun a a' => R a a' ∧ S a a') x x' := by
  cases h with
  | ok hr => exact .ok ⟨hr, hok _ _ rfl rfl⟩
  | error hfaults => exact .error hfaults

def Ordered (r : Respelling) : Prop :=
  ∀ a a' b b', r.place a a' → r.place b b' → a'.le b' = a.le b

theorem isEmpty_eq {faults faults' : List (Location × Error)}
    (h : List.Forall₂ r.SameFault faults faults') : faults'.isEmpty = faults.isEmpty := by
  cases h <;> rfl

section Programs

variable {config config' : Config} {source source' : List (Location × Except Error Line)}

theorem SameLayout.assembleLines
    (h : r.SameLayout stamp stamp' (config.layout stamp source) (config'.layout stamp' source'))
    (haddress : config'.startAddress = config.startAddress) (hordered : r.Ordered) :
    r.SameResult r.SameAssembly (config.assembleLines stamp source)
      (config'.assembleLines stamp' source') := by
  simp only [Config.assembleLines, isEmpty_eq h.errors]
  split
  case isTrue hempty =>
      have hclean : (config.layout stamp source).errors = [] := List.isEmpty_iff.mp hempty
      have hclean' : (config'.layout stamp' source').errors = [] := by
        rw [← List.isEmpty_iff, isEmpty_eq h.errors, hempty]
      have hready' := Config.layout_ready hclean'
      rw [haddress] at hready' ⊢
      have hwrite := h.write (Config.layout_ready hclean) hready'
      simp only [isEmpty_eq hwrite.errors]
      split
      · exact .ok ⟨hwrite.image, h.symbols⟩
      · exact .error hwrite.errors
  case isFalse _ =>
      refine .error (forall₂_mergeSort ?_ h.errors)
      intro a a' b b' ha hb
      exact hordered _ _ _ _ ha.place hb.place

theorem SameLayout.start (address : UInt16) {defines : List (String × Int32)}
    (hdefines : ∀ d ∈ defines, r.Fixes d.1) :
    r.SameLayout stamp stamp' (Layout.start address defines) (Layout.start address defines) := by
  have hentries : List.Forall₂ r.SameEntry (Layout.predefine defines).entries
      (Layout.predefine defines).entries := by
    rw [List.forall₂_same]
    intro entry hentry
    obtain ⟨d, -, rfl⟩ := Layout.entry_predefine hentry
    exact ⟨by simp [r.name_none], ⟨by simp [r.name_none], rfl, rfl, rfl, .none⟩⟩
  refine ⟨rfl, rfl, rfl, rfl, ⟨hentries, ?_⟩, .nil, .nil⟩
  intro entry hentry _
  obtain ⟨d, hd, rfl⟩ := Layout.entry_predefine hentry
  exact hdefines d hd

structure SameMark (r : Respelling) (mark mark' : Location × UInt16) : Prop where
  place : r.place mark.1 mark'.1
  address : mark'.2 = mark.2

theorem SameLayout.addresses {env env' : Environment} {layout layout' : Layout}
    (h : r.SameLayout env.stamp env'.stamp layout layout') (hrules : r.SameRules env env')
    (hsource : r.SameSource env env' layout source source') (hstart : layout.addresses = [])
    (hstart' : layout'.addresses = [])
    (clean : (Layout.reached env layout source source.length).errors = [])
    (clean' : (Layout.reached env' layout' source' source'.length).errors = []) :
    List.Forall₂ r.SameMark (Layout.reached env layout source source.length).addresses
      (Layout.reached env' layout' source' source'.length).addresses := by
  obtain ⟨hlen, hget⟩ := Layout.reached_addresses hstart clean le_rfl
  obtain ⟨hlen', hget'⟩ := Layout.reached_addresses hstart' clean' le_rfl
  refine List.forall₂_iff_get.mpr ⟨by rw [hlen, hlen', hsource.length], ?_⟩
  intro n hn hn'
  obtain ⟨⟨loc, result⟩, hread⟩ : ∃ read, source[n]? = some read :=
    ⟨_, List.getElem?_eq_getElem (hlen ▸ hn)⟩
  obtain ⟨⟨loc', result'⟩, hread'⟩ : ∃ read, source'[n]? = some read :=
    ⟨_, List.getElem?_eq_getElem (hlen' ▸ hn')⟩
  have hmark := hget n (hlen ▸ hn) loc result hread
  have hmark' := hget' n (hlen' ▸ hn') loc' result' hread'
  rw [List.get_eq_getElem, List.get_eq_getElem, (List.getElem?_eq_some_iff.mp hmark).2,
    (List.getElem?_eq_some_iff.mp hmark').2]
  exact ⟨(hsource.reads n _ _ hread hread').place, (h.reached hrules hsource n).here⟩

theorem SameSource.assembleLines
    (hsource : r.SameSource (config.environment stamp) (config.environment stamp')
      (Layout.start config.startAddress config.defines) source source')
    (hwords : ∀ scope, InstructionSet.builtin.Spares (r.name scope))
    (hdefines : ∀ d ∈ config.defines, r.Fixes d.1) (hordered : r.Ordered) :
    r.SameResult (fun a a' => r.SameAssembly a a' ∧ List.Forall₂ r.SameMark a.addresses a'.addresses)
      (config.assembleLines stamp source) (config.assembleLines stamp' source') := by
  have hstart : r.SameLayout stamp stamp' (Layout.start config.startAddress config.defines)
      (Layout.start config.startAddress config.defines) := .start _ hdefines
  have hrules : r.SameRules (config.environment stamp) (config.environment stamp') :=
    ⟨rfl, rfl, hwords⟩
  have hsame : r.SameLayout stamp stamp' (config.layout stamp source)
      (config.layout stamp' source') := hstart.ofLines hrules hsource
  refine (hsame.assembleLines rfl hordered).and_of_ok ?_
  intro a a' ha ha'
  obtain ⟨clean, -, rfl⟩ := Config.assembleLines_eq_ok.mp ha
  obtain ⟨clean', -, rfl⟩ := Config.assembleLines_eq_ok.mp ha'
  rw [Config.layout_eq, Config.layout_eq]
  exact hstart.addresses hrules hsource rfl rfl (Config.layout_clean clean).1
    (Config.layout_clean clean').1

end Programs

def keeping (place : Location → Location → Prop) : Respelling where
  place := place
  name _ := id
  name_none := rfl
  injective _ := Function.injective_id

section Keeping

variable {place : Location → Location → Prop}

theorem keeping_fixes (name : String) : (keeping place).Fixes name :=
  fun _ => rfl

theorem keeping_spares (set : InstructionSet) (scope : Option Nat) :
    set.Spares ((keeping place).name scope) := by
  intro _ _ _ _ _ t _ l
  cases l <;> rfl

theorem keeping_line {scope : Option Nat} {loc loc' : Location} {line : Line}
    (htexts : ∀ width items, line.statement = some (.data width items) →
      SameTexts stamp stamp' loc loc' items) :
    (keeping place).SameLine stamp stamp' scope loc loc' line line :=
  ⟨(Line.rename_id line).symm, fun label _ _ => keeping_fixes label.name, htexts⟩

end Keeping

end Respelling

def Symbol.meaning (s : Symbol) :
    String × Option Nat × SymbolKind × Option Int32 × Option Pending :=
  (s.name, s.scope, s.kind, s.value?, s.pending?)

def Emission.span (e : Emission) : UInt16 × Nat × Nat :=
  (e.address, e.offset, e.length)

structure SameProduct (a a' : Assembly) : Prop where
  bytes : a'.image.bytes = a.image.bytes
  spans : a'.image.records.map Emission.span = a.image.records.map Emission.span
  symbols : a'.symbols.toList.map Symbol.meaning = a.symbols.toList.map Symbol.meaning

theorem Respelling.SameAssembly.product {place : Location → Location → Prop} {a a' : Assembly}
    (h : (keeping place).SameAssembly a a') : SameProduct a a' := by
  refine ⟨h.image.bytes, forall₂_map_eq h.image.records ?_, forall₂_map_eq h.symbols.toList ?_⟩
  · intro e e' hsame
    simp [Emission.span, hsame.address, hsame.offset, hsame.length]
  · intro s s' hsame
    have hpending : s'.pending? = s.pending? := by
      have hsame := hsame.pending?
      generalize s.pending? = p at hsame ⊢
      generalize s'.pending? = p' at hsame ⊢
      cases hsame with
      | none => rfl
      | some _ _ => exact congrArg (fun e => some (Pending.mk e _ _)) (Expr.rename_id _)
    have hname : s'.name = s.name := hsame.name
    simp only [Symbol.meaning, hname, hsame.scope, hsame.kind, hsame.value?, hpending]

inductive SameOutcome (R : Assembly → Assembly → Prop) :
    Except (List Diagnostic) Assembly → Except (List Diagnostic) Assembly → Prop
  | ok {a a' : Assembly} : R a a' → SameOutcome R (.ok a) (.ok a')
  | error {reports reports' : List Diagnostic} :
      reports'.map Diagnostic.kind = reports.map Diagnostic.kind →
      SameOutcome R (.error reports) (.error reports')

theorem SameOutcome.ok_iff {R : Assembly → Assembly → Prop}
    {x x' : Except (List Diagnostic) Assembly} (h : SameOutcome R x x') :
    (∃ a, x = .ok a) ↔ ∃ a', x' = .ok a' := by
  cases h with
  | ok _ => exact ⟨fun _ => ⟨_, rfl⟩, fun _ => ⟨_, rfl⟩⟩
  | error _ => simp

theorem Respelling.SameResult.assemble {r : Respelling} {R S : Assembly → Assembly → Prop}
    {config config' : Config} {seconds : Nat} {files files' : List SourceFile}
    (h : r.SameResult R (config.assembleLines (Config.stampOf seconds files) (readLines files))
      (config'.assembleLines (Config.stampOf seconds files') (readLines files')))
    (himp : ∀ a a', R a a' → S a a') :
    SameOutcome S (config.assemble seconds files) (config'.assemble seconds files') := by
  rw [Config.assemble, Config.assemble, ← Config.stampOf, ← Config.stampOf]
  generalize config.assembleLines (Config.stampOf seconds files) (readLines files) = x at h ⊢
  generalize config'.assembleLines (Config.stampOf seconds files') (readLines files') = x' at h ⊢
  cases h with
  | ok hr => exact .ok (himp _ _ hr)
  | error hfaults =>
      refine .error ?_
      rw [List.map_map, List.map_map]
      exact forall₂_map_eq hfaults fun _ _ hsame => hsame.kind

end Z80
