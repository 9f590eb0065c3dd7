import Mathlib
import Z80.Proofs.Matching
import Z80.Proofs.WrittenAlike

namespace Z80

def PatternToken.word? : PatternToken → Option String
  | word w => some (Text.lower w)
  | _ => none

def InstructionSet.words (set : InstructionSet) : List String :=
  set.entries.flatMap fun entry => entry.2.flatMap fun v => v.pattern.filterMap PatternToken.word?

theorem InstructionSet.mem_words {set : InstructionSet} {mnemonic : String} {variants : List Variant}
    {v : Variant} {w : String} (hvariants : set.variants? mnemonic = some variants)
    (hv : v ∈ variants) (hw : .word w ∈ v.pattern) : Text.lower w ∈ set.words := by
  refine List.mem_flatMap.mpr ⟨(mnemonic, variants), mem_of_variants? hvariants, ?_⟩
  exact List.mem_flatMap.mpr ⟨v, hv, List.mem_filterMap.mpr ⟨.word w, hw, rfl⟩⟩

theorem InstructionSet.spares_of_words {set : InstructionSet} {f : String → String}
    (h : ∀ name, f name ≠ name → Text.lower name ∉ set.words ∧ Text.lower (f name) ∉ set.words) :
    set.Spares f := by
  intro mnemonic variants hvariants v hv t ht l
  cases l with
  | name s =>
      by_cases hs : f s = s
      · simp [Lexeme.rename, hs]
      · obtain ⟨hold, hnew⟩ := h s hs
        cases t with
        | word w =>
            have hw := mem_words hvariants hv ht
            have hne : Text.lower s ≠ Text.lower w := fun heq => hold (heq ▸ hw)
            have hne' : Text.lower (f s) ≠ Text.lower w := fun heq => hnew (heq ▸ hw)
            simp [Lexeme.rename, PatternToken.takes, hne, hne']
        | _ => rfl
  | _ => rfl

section Source

variable {source : List (Location × Except Error Line)}

def sourceNames (source : List (Location × Except Error Line)) : List String :=
  source.flatMap fun read => match read.2 with
    | .ok line => line.names
    | .error _ => []

def globalLabels (source : List (Location × Except Error Line)) : List String :=
  source.zipIdx.flatMap fun read => match read.1.2 with
    | .ok line => (line.label.toList.filter fun label =>
        label.scopeIn (blockAt source read.2) = none).map Label.name
    | .error _ => []

def respellBlock (block : Nat) (f : String → String)
    (source : List (Location × Except Error Line)) : List (Location × Except Error Line) :=
  source.zipIdx.map fun read =>
    if blockAt source read.2 = some block then (read.1.1, read.1.2.map (Line.rename f)) else read.1

theorem mem_sourceNames {n : Nat} {loc : Location} {line : Line} {name : String}
    (hn : source[n]? = some (loc, .ok line)) (hname : name ∈ line.names) :
    name ∈ sourceNames source :=
  List.mem_flatMap.mpr ⟨_, List.mem_of_getElem? hn, hname⟩

theorem mem_globalLabels {n : Nat} {loc : Location} {line : Line} {label : Label}
    (hn : source[n]? = some (loc, .ok line)) (hlabel : line.label = some label)
    (hscope : label.scopeIn (blockAt source n) = none) : label.name ∈ globalLabels source := by
  refine List.mem_flatMap.mpr ⟨((loc, .ok line), n), List.mem_zipIdx_iff_getElem?.mpr hn, ?_⟩
  simp [hlabel, hscope]

theorem respellBlock_getElem? (block : Nat) (f : String → String) {n : Nat}
    {read : Location × Except Error Line} (hn : source[n]? = some read) :
    (respellBlock block f source)[n]? = some
      (if blockAt source n = some block then (read.1, read.2.map (Line.rename f)) else read) := by
  simp [respellBlock, hn]

end Source

def replaceName (old new name : String) : String :=
  if name = old then new else name

theorem replaceName_eq_swap {old new name : String} (h : name ≠ new) :
    replaceName old new name = Equiv.swap old new name := by
  unfold replaceName
  split
  · next heq => rw [heq, Equiv.swap_apply_left]
  · next hne => rw [Equiv.swap_apply_of_ne_of_ne hne h]

def swapIn (block : Nat) (old new : String) : Respelling where
  place := Eq
  name scope := if scope = some block then Equiv.swap old new else id
  name_none := if_neg (by simp)
  injective := by
    intro scope
    split
    · exact (Equiv.swap old new).injective
    · exact Function.injective_id

section Swap

variable {block : Nat} {old new name : String}

theorem swapIn_ordered : (swapIn block old new).Ordered := by
  rintro a _ b _ rfl rfl
  rfl

theorem swapIn_fixes (hold : name ≠ old) (hnew : name ≠ new) :
    (swapIn block old new).Fixes name := by
  intro scope
  simp only [swapIn]
  split
  · exact Equiv.swap_apply_of_ne_of_ne hold hnew
  · rfl

theorem swapIn_spares {set : InstructionSet} (hold : Text.lower old ∉ set.words)
    (hnew : Text.lower new ∉ set.words) (scope : Option Nat) :
    set.Spares ((swapIn block old new).name scope) := by
  refine InstructionSet.spares_of_words ?_
  intro name hmoved
  by_cases ho : name = old
  · subst ho
    refine ⟨hold, ?_⟩
    simp only [swapIn]
    split
    · rwa [Equiv.swap_apply_left]
    · exact hold
  · by_cases hn : name = new
    · subst hn
      refine ⟨hnew, ?_⟩
      simp only [swapIn]
      split
      · rwa [Equiv.swap_apply_right]
      · exact hnew
    · exact absurd (swapIn_fixes ho hn scope) hmoved

end Swap

namespace Respelling

variable {r : Respelling}

theorem SameImage.eq (hplace : ∀ loc loc', r.place loc loc' → loc' = loc) {image image' : Image}
    (h : r.SameImage image image') : image' = image := by
  have hrecords : image'.records = image.records := by
    refine forall₂_eq h.records ?_
    rintro ⟨loc, address, offset, length⟩ ⟨loc', address', offset', length'⟩ ⟨hloc, ha, ho, hl⟩
    cases hplace _ _ hloc
    cases ha
    cases ho
    cases hl
    rfl
  obtain ⟨bytes, records⟩ := image
  obtain ⟨bytes', records'⟩ := image'
  exact congrArg₂ Image.mk h.bytes hrecords

theorem marks_eq (hplace : ∀ loc loc', r.place loc loc' → loc' = loc)
    {marks marks' : List (Location × UInt16)} (h : List.Forall₂ r.SameMark marks marks') :
    marks' = marks := by
  refine forall₂_eq h ?_
  rintro ⟨loc, address⟩ ⟨loc', address'⟩ ⟨hloc, ha⟩
  cases hplace _ _ hloc
  cases ha
  rfl

end Respelling

namespace Config

variable {config : Config} {stamp : BuildStamp} {source : List (Location × Except Error Line)}
  {block : Nat} {old new : String}

theorem sameSource_respellBlock (clean : (config.layout stamp source).errors = [])
    (hglobal : old ∉ globalLabels source) (hnew : new ∉ sourceNames source) :
    (swapIn block old new).SameSource (config.environment stamp) (config.environment stamp)
      (Layout.start config.startAddress config.defines) source
      (respellBlock block (replaceName old new) source) := by
  refine ⟨by simp [respellBlock], ?_⟩
  intro n read read' hn hn'
  rw [respellBlock_getElem? block _ hn] at hn'
  cases hn'
  -- Without errors the run is in the block that the lines in front of the line have opened.
  have hscope : (Layout.reached (config.environment stamp)
      (Layout.start config.startAddress config.defines) source n).scope = blockAt source n :=
    congrArg Prod.fst (Layout.reached_blocks rfl (layout_clean clean).1
      (List.getElem?_eq_some_iff.mp hn).1.le)
  rw [hscope]
  obtain ⟨loc, result⟩ := read
  cases result with
  | error e => split <;> exact ⟨rfl, .error rfl⟩
  | ok line =>
      have hfresh : ∀ name ∈ line.names, name ≠ new := by
        rintro name hname rfl
        exact hnew (mem_sourceNames hn hname)
      have hfixes : ∀ label, line.label = some label → label.scopeIn (blockAt source n) = none →
          (swapIn block old new).Fixes label.name := by
        intro label hlabel hnone
        refine swapIn_fixes ?_ (hfresh _ (by simp [Line.names, hlabel]))
        intro heq
        exact hglobal (heq ▸ mem_globalLabels hn hlabel hnone)
      split
      · next hblock =>
          refine ⟨rfl, .ok ⟨?_, hfixes, fun _ _ _ _ _ => rfl⟩⟩
          refine Line.rename_congr ?_
          intro name hname
          simp [swapIn, hblock, replaceName_eq_swap (hfresh name hname)]
      · next hblock =>
          refine ⟨rfl, .ok ⟨?_, hfixes, fun _ _ _ _ _ => rfl⟩⟩
          simp [swapIn, hblock]

theorem local_name_replaceable {a : Assembly} (assembled : config.assembleLines stamp source = .ok a)
    (block : Nat) (old new : String) (hglobal : old ∉ globalLabels source)
    (hdefines : old ∉ config.defines.map Prod.fst) (hnew : new ∉ sourceNames source)
    (hnewDefines : new ∉ config.defines.map Prod.fst)
    (hword : Text.lower old ∉ InstructionSet.builtin.words)
    (hnewWord : Text.lower new ∉ InstructionSet.builtin.words) :
    ∃ a', config.assembleLines stamp (respellBlock block (replaceName old new) source) = .ok a' ∧
      a'.image = a.image ∧ a'.addresses = a.addresses := by
  obtain ⟨clean, -⟩ := assembleLines_eq_ok.mp assembled
  have hfixes : ∀ d ∈ config.defines, (swapIn block old new).Fixes d.1 := by
    intro d hd
    have hmem := List.mem_map_of_mem (f := Prod.fst) hd
    exact swapIn_fixes (fun heq => hdefines (heq ▸ hmem)) (fun heq => hnewDefines (heq ▸ hmem))
  have hresult := (sameSource_respellBlock clean hglobal hnew).assembleLines
    (swapIn_spares hword hnewWord) hfixes swapIn_ordered
  have hplace : ∀ loc loc', (swapIn block old new).place loc loc' → loc' = loc :=
    fun _ _ heq => Eq.symm heq
  rw [assembled] at hresult
  generalize config.assembleLines stamp (respellBlock block (replaceName old new) source) = x
    at hresult ⊢
  cases hresult with
  | @ok _ a' hsame =>
      exact ⟨a', rfl, hsame.1.image.eq hplace, Respelling.marks_eq hplace hsame.2⟩

def twoLoops : List (Location × Except Error Line) :=
  [(⟨0, 1⟩, .ok ⟨none, some .openLocal⟩),
   (⟨0, 2⟩, .ok ⟨some ⟨"loop", false⟩, some (.instruction "djnz" [⟨.name "loop", 11⟩])⟩),
   (⟨0, 3⟩, .ok ⟨some ⟨"size", false⟩,
     some (.equ (.binary .sub (.symbol "done") (.symbol "loop")))⟩),
   (⟨0, 4⟩, .ok ⟨some ⟨"done", false⟩, some (.data .byte [.expr (.symbol "size")])⟩),
   (⟨0, 5⟩, .ok ⟨none, some .closeLocal⟩),
   (⟨0, 6⟩, .ok ⟨none, some .openLocal⟩),
   (⟨0, 7⟩, .ok ⟨some ⟨"loop", false⟩, some (.instruction "jp" [⟨.name "loop", 9⟩])⟩),
   (⟨0, 8⟩, .ok ⟨none, some .closeLocal⟩)]

theorem twoLoops_replaced :
    respellBlock 0 (replaceName "loop" "again") twoLoops ≠ twoLoops ∧
      ∃ a a', ({} : Config).assembleLines (BuildStamp.ofSeconds 0 ["<input>"]) twoLoops = .ok a ∧
        a.image.bytes = [0x10, 0xFE, 0x02, 0xC3, 0x03, 0x00] ∧
        ({} : Config).assembleLines (BuildStamp.ofSeconds 0 ["<input>"])
          (respellBlock 0 (replaceName "loop" "again") twoLoops) = .ok a' ∧
        a'.image = a.image ∧ a'.addresses = a.addresses := by
  have ha := (@assembleLines_eq_ok {} (BuildStamp.ofSeconds 0 ["<input>"]) twoLoops _).mpr
    ⟨by decide +kernel, by decide +kernel, rfl⟩
  have hwords : ∀ name ∈ ["loop", "again"], Text.lower name ∉ InstructionSet.builtin.words := by
    decide +kernel
  obtain ⟨a', ha', hsame⟩ := local_name_replaceable ha 0 "loop" "again" (by decide +kernel)
    (by decide) (by decide +kernel) (by decide) (hwords _ (by simp)) (hwords _ (by simp))
  exact ⟨by decide +kernel, _, a', ha, by decide +kernel, ha', hsame⟩

end Config

end Z80
