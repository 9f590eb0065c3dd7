import Mathlib
import Z80.Proofs.WrittenAlike

namespace Z80

namespace Text

def EndsLine (text : String) : Prop :=
  text = "" ∨ text.toList.getLast? = some '\n'

instance (text : String) : Decidable (EndsLine text) :=
  inferInstanceAs (Decidable (_ ∨ _))

theorem pieces_ne_nil (cs : List Char) : pieces cs ≠ [] := by
  induction cs with
  | nil => simp [pieces]
  | cons c cs ih =>
      unfold pieces
      split
      · simp
      · split
        · exact ih
        · split <;> simp

theorem pieces_lineFeed (cs : List Char) :
    ∃ ls, ls ≠ [] ∧ ∀ rest, pieces (cs ++ '\n' :: rest) = ls ++ pieces rest := by
  induction cs with
  | nil => exact ⟨[[]], by simp, fun rest => by simp [pieces]⟩
  | cons c cs ih =>
      obtain ⟨ls, hne, hls⟩ := ih
      have hhead : ∀ rest, (cs ++ '\n' :: rest).head? = (cs ++ ['\n']).head? := by
        intro rest
        cases cs <;> rfl
      by_cases hc : c = '\n'
      · exact ⟨[] :: ls, by simp, fun rest => by simp [pieces, hc, hls]⟩
      · -- Whether a carriage return belongs to a line end is settled in front of the rest.
        by_cases hr : c = '\r' ∧ (cs ++ ['\n']).head? = some '\n'
        · refine ⟨ls, hne, ?_⟩
          intro rest
          rw [← hls rest, List.cons_append, pieces, hhead, hr.1, hr.2]
          rfl
        · cases ls with
          | nil => exact absurd rfl hne
          | cons line ls =>
              refine ⟨(c :: line) :: ls, by simp, ?_⟩
              intro rest
              have hreturn : ¬((c == '\r' && (cs ++ '\n' :: rest).head? == some '\n') = true) := by
                rw [hhead]
                simpa using hr
              rw [List.cons_append, pieces, if_neg (by simpa using hc), if_neg hreturn, hls]
              rfl

theorem dropEmptyLast_append (ls : List (List Char)) {rest : List (List Char)} (h : rest ≠ []) :
    dropEmptyLast (ls ++ rest) = ls ++ dropEmptyLast rest := by
  have hlast : (ls ++ rest).getLast? = rest.getLast? := List.getLast?_append_of_ne_nil ls h
  simp only [dropEmptyLast, hlast]
  split
  · exact List.dropLast_append_of_ne_nil h
  · rfl

theorem lines_append {s : String} (h : EndsLine s) (t : String) :
    lines (s ++ t) = lines s ++ lines t := by
  rcases h with rfl | hlast
  · simp [lines, pieces, dropEmptyLast]
  · obtain ⟨cs, hcs⟩ := List.getLast?_eq_some_iff.mp hlast
    obtain ⟨ls, -, hls⟩ := pieces_lineFeed cs
    have hwhole : pieces (s ++ t).toList = ls ++ pieces t.toList := by
      rw [String.toList_append, hcs, List.append_assoc]
      exact hls t.toList
    have hfront : pieces s.toList = ls ++ [[]] := by
      rw [hcs]
      exact hls []
    simp only [lines, hwhole, hfront, dropEmptyLast_append _ (pieces_ne_nil _),
      dropEmptyLast_append _ (List.cons_ne_nil _ _), List.map_append]
    simp [dropEmptyLast]

theorem lines_join {texts : List String} (h : ∀ s ∈ texts.dropLast, EndsLine s) :
    lines (String.join texts) = texts.flatMap lines := by
  induction texts with
  | nil => rfl
  | cons s texts ih =>
      cases texts with
      | nil => simp
      | cons t texts =>
          rw [List.dropLast_cons_cons] at h
          have hrest := ih fun u hu => h u (List.mem_cons_of_mem _ hu)
          rw [String.join_cons, lines_append (h s (List.mem_cons_self ..)), hrest,
            ← List.flatMap_cons]

end Text

theorem readLines_results {files : List SourceFile}
    (h : ∀ f ∈ files.dropLast, Text.EndsLine f.text) :
    (readLines files).map Prod.snd =
      (Text.lines (String.join (files.map SourceFile.text))).map Line.parse := by
  have htexts : ∀ s ∈ (files.map SourceFile.text).dropLast, Text.EndsLine s := by
    intro s hs
    rw [← List.map_dropLast] at hs
    obtain ⟨f, hf, rfl⟩ := List.mem_map.mp hs
    exact h f hf
  have hlines : (sourceLines files).map Prod.snd = files.flatMap fun f => Text.lines f.text := by
    have hinner : ∀ (f : SourceFile) (i : Nat), ((Text.lines f.text).zipIdx.map
        fun line => ((⟨i, line.2 + 1⟩ : Location), line.1)).map Prod.snd = Text.lines f.text := by
      intro f i
      rw [List.map_map]
      exact List.zipIdx_map_fst _ _
    calc (sourceLines files).map Prod.snd
        = files.zipIdx.flatMap fun f => Text.lines f.1.text := by
          simp only [sourceLines, List.map_flatMap, hinner]
      _ = (files.zipIdx.map Prod.fst).flatMap fun f => Text.lines f.text := by
          rw [List.flatMap_map]
      _ = files.flatMap fun f => Text.lines f.text := by rw [List.zipIdx_map_fst]
  rw [Text.lines_join htexts, List.flatMap_map, ← hlines, readLines, List.map_map, List.map_map]
  rfl

theorem le_eq_of_pairwise {locs : List Location} (h : locs.Pairwise fun x y => y.le x = false)
    {n m : Nat} {a b : Location} (ha : locs[n]? = some a) (hb : locs[m]? = some b) :
    a.le b = decide (n ≤ m) := by
  obtain ⟨hn, rfl⟩ := List.getElem?_eq_some_iff.mp ha
  obtain ⟨hm, rfl⟩ := List.getElem?_eq_some_iff.mp hb
  have hbefore := List.pairwise_iff_getElem.mp h
  rcases lt_trichotomy n m with hlt | rfl | hgt
  · have hfalse := Location.le_eq_false.mp (hbefore n m hn hm hlt)
    have hle : locs[n].le locs[m] ≠ false := by
      rw [Ne, Location.le_eq_false]
      omega
    rw [decide_eq_true hlt.le]
    exact Bool.eq_true_of_not_eq_false hle
  · rw [decide_eq_true le_rfl]
    exact Location.le_refl _
  · rw [hbefore m n hm hn hgt, decide_eq_false (by omega)]

def sameNumber (files files' : List SourceFile) (loc loc' : Location) : Prop :=
  ∃ n : Nat, ((readLines files).map Prod.fst)[n]? = some loc ∧
    ((readLines files').map Prod.fst)[n]? = some loc'

theorem sameNumber_ordered (files files' : List SourceFile) :
    (Respelling.keeping (sameNumber files files')).Ordered := by
  rintro a a' b b' ⟨n, ha, ha'⟩ ⟨m, hb, hb'⟩
  rw [le_eq_of_pairwise (readLines_pairwise files) ha hb,
    le_eq_of_pairwise (readLines_pairwise files') ha' hb']

def Predefined.isPlace : Predefined → Bool
  | file | line => true
  | date | time => false

def Line.namesPlace (line : Line) : Bool :=
  match line.statement with
  | some (.data _ items) => items.any fun item => match item with
      | .predefined p => p.isPlace
      | _ => false
  | _ => false

def asksForPlace (read : Location × Except Error Line) : Bool :=
  match read.2 with
  | .ok line => line.namesPlace
  | .error _ => false

theorem sameTexts_of_placeless {seconds : Nat} {files files' : List SourceFile} {line : Line}
    (h : line.namesPlace = false) {width : DataWidth} {items : List DataItem}
    (hs : line.statement = some (.data width items)) (loc loc' : Location) :
    SameTexts (Config.stampOf seconds files) (Config.stampOf seconds files') loc loc' items := by
  intro p hp
  have hplace : p.isPlace = false := by
    simp only [Line.namesPlace, hs, List.any_eq_false] at h
    simpa using h _ hp
  cases p with
  | file | line => cases hplace
  | date | time => rfl

structure SameUnit (a a' : Assembly) : Prop extends SameProduct a a' where
  addresses : a'.addresses.map Prod.snd = a.addresses.map Prod.snd

namespace Config

theorem sameSource_of_results (config : Config) (seconds : Nat) {files files' : List SourceFile}
    (hresults : (readLines files').map Prod.snd = (readLines files).map Prod.snd)
    (hplaceless : ∀ read ∈ readLines files, asksForPlace read = false) :
    (Respelling.keeping (sameNumber files files')).SameSource
      (config.environment (stampOf seconds files)) (config.environment (stampOf seconds files'))
      (Layout.start config.startAddress config.defines) (readLines files) (readLines files') := by
  refine ⟨by simpa using congrArg List.length hresults, ?_⟩
  rintro n ⟨loc, result⟩ ⟨loc', result'⟩ hn hn'
  have hsame : result' = result := by
    have hget := congrArg (·[n]?) hresults
    simpa [hn, hn'] using hget
  subst hsame
  refine ⟨⟨n, by simp [hn], by simp [hn']⟩, ?_⟩
  cases result' with
  | error e => exact .error rfl
  | ok line =>
      refine .ok (Respelling.keeping_line ?_)
      intro width items hs
      have hline : line.namesPlace = false := hplaceless _ (List.mem_of_getElem? hn)
      exact sameTexts_of_placeless hline hs loc loc'

theorem files_one_program (config : Config) (seconds : Nat) (files files' : List SourceFile)
    (htexts : String.join (files'.map SourceFile.text) = String.join (files.map SourceFile.text))
    (hlines : ∀ f ∈ files.dropLast, Text.EndsLine f.text)
    (hlines' : ∀ f ∈ files'.dropLast, Text.EndsLine f.text)
    (hplaceless : ∀ read ∈ readLines files, asksForPlace read = false) :
    SameOutcome SameUnit (config.assemble seconds files) (config.assemble seconds files') := by
  have hresults : (readLines files').map Prod.snd = (readLines files).map Prod.snd := by
    rw [readLines_results hlines, readLines_results hlines', htexts]
  have hresult := (sameSource_of_results config seconds hresults hplaceless).assembleLines
    (Respelling.keeping_spares _) (fun d _ => Respelling.keeping_fixes d.1)
    (sameNumber_ordered files files')
  refine hresult.assemble ?_
  rintro a a' ⟨hassembly, hmarks⟩
  exact ⟨hassembly.product, forall₂_map_eq hmarks fun _ _ hsame => hsame.address⟩

def splitRoutine : List SourceFile :=
  [⟨"a", "start: ld b,count\nloop: djnz loop\n"⟩, ⟨"b", ""⟩, ⟨"c", "count equ 3\n dw start"⟩]

def wholeRoutine : List SourceFile :=
  [⟨"main", "start: ld b,count\nloop: djnz loop\ncount equ 3\n"⟩, ⟨"tail", " dw start"⟩]

theorem splitRoutine_whole :
    SameOutcome SameUnit (({} : Config).assemble 0 splitRoutine)
        (({} : Config).assemble 0 wholeRoutine) ∧
      ∃ a, ({} : Config).assemble 0 splitRoutine = .ok a ∧
        a.image.bytes = [0x06, 0x03, 0x10, 0xFE, 0x00, 0x00] := by
  have ha := (@assemble_eq_ok {} 0 splitRoutine _).mpr ⟨by decide +kernel, by decide +kernel, rfl⟩
  exact ⟨files_one_program {} 0 splitRoutine wholeRoutine (by decide +kernel) (by decide +kernel)
    (by decide +kernel) (by decide +kernel), _, ha, by decide +kernel⟩

end Config

end Z80
