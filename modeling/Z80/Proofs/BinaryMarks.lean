import Mathlib
import Z80.Proofs.LeadingConstants
import Z80.Proofs.Lexing
import Z80.Proofs.NumberSpelling

namespace Z80

namespace Numeral

variable {c : Char} {bits : List Char}

theorem isDigit_of_binary (h : isDigit 2 c = true) : c.isDigit = true := by
  by_contra hc
  rw [Bool.not_eq_true] at hc
  simp only [isDigit, digit?, digitValue?, hc, Bool.false_eq_true, if_false] at h
  split at h
  · next hrange =>
      simp only [Bool.and_eq_true, decide_eq_true_eq] at hrange
      simp at h
      omega
  · split at h
    · next hrange =>
        simp only [Bool.and_eq_true, decide_eq_true_eq] at hrange
        simp at h
        omega
    · cases h

theorem isDigits_binary (h : isDigits 2 bits = true) :
    bits ≠ [] ∧ ∀ c ∈ bits, isDigit 2 c = true := by
  simpa [isDigits] using h

theorem ofSpelling?_binary (h : isDigits 2 bits = true) :
    ofSpelling? ('0' :: 'b' :: bits) = word? 2 bits := by
  obtain ⟨hne, hall⟩ := isDigits_binary h
  have hdigits : ∀ c ∈ bits, c.isDigit = true := fun c hc => isDigit_of_binary (hall c hc)
  have hlower : ('0' :: 'b' :: bits).map Char.toLower = '0' :: 'b' :: bits := by
    have hbits : bits.map Char.toLower = bits := by
      rw [List.map_congr_left fun c hc => toLower_of_isDigit (hdigits c hc), List.map_id']
    rw [List.map_cons, List.map_cons, hbits]
    rfl
  have hbefore : ∀ mark : Char, mark.isDigit = false →
      before? mark ('0' :: 'b' :: bits) = none := by
    intro mark hmark
    have hlast : ('0' :: 'b' :: bits).getLast? ≠ some mark := by
      intro hlast
      obtain ⟨d, more, rfl⟩ := List.exists_cons_of_ne_nil hne
      rw [List.getLast?_cons_cons, List.getLast?_cons_cons] at hlast
      rw [hdigits mark (List.mem_of_getLast? hlast)] at hmark
      cases hmark
    exact if_neg (by simpa using hlast)
  have hhexAfter : Form.hexMarkedAfter.digits? ('0' :: 'b' :: bits) = none := by
    simp [Form.digits?, Form.unmarked?, hbefore 'h' rfl]
  have hhexBefore : Form.hexMarkedBefore.digits? ('0' :: 'b' :: bits) = none := by
    simp [Form.digits?, Form.unmarked?, after?]
  have hafter : Form.binaryMarkedAfter.digits? ('0' :: 'b' :: bits) = none := by
    simp [Form.digits?, Form.unmarked?, hbefore 'b' rfl]
  have hmarked : Form.binaryMarkedBefore.digits? ('0' :: 'b' :: bits) = some bits := by
    simp [Form.digits?, Form.unmarked?, after?, Form.radix, h]
  simp [ofSpelling?, hlower, Form.all, hhexAfter, hhexBefore, hafter, hmarked, Form.radix]

end Numeral

namespace Token

variable {next? next?' : Option Char} {afterValue ended middle : Bool} {column : Nat}
  {cs bits post : List Char} {ts us after : List Token} {value : Int32}

theorem Reads.before (h : Reads next? afterValue column cs ts ended) (hnext : next? ≠ none)
    (hbreak : ∀ d ∈ next?', Text.isNameRest d = false ∧ d ≠ '\'') :
    Reads next?' afterValue column cs ts ended := by
  induction h with
  | done => exact .done
  | blank hblank _ ih => exact .blank hblank ih
  | @token _ _ _ cs more l _ hspells _ ih =>
      refine .token ?_ ih
      cases more with
      | cons d more => exact hspells
      | nil =>
          refine Lexeme.Spells.before hspells ?_ hbreak
          rintro ⟨s, rfl⟩
          exact absurd (hspells.last rfl) hnext

theorem spells_marked {l : Lexeme} (h : l.Spells afterValue next? cs)
    (hl : l = .number (String.ofList ('0' :: 'b' :: bits)) value) :
    cs = '0' :: 'b' :: bits ∧ (∀ d ∈ next?, d.isAlphanum = false) ∧
      ∃ w, Numeral.ofSpelling? ('0' :: 'b' :: bits) = some w ∧ value = w.toInt32 := by
  cases h with
  | comment | shiftLeft | shiftRight | dollar | percent | mark | shadow => cases hl
  | hexadecimal | binary =>
      have hspelling := String.ofList_injective (Lexeme.number.inj hl).1
      cases hspelling
  | @numeral c run w _ _ hnext hw =>
      obtain ⟨hspelling, hvalue⟩ := Lexeme.number.inj hl
      rw [String.ofList_injective hspelling] at hw ⊢
      exact ⟨rfl, hnext, w, hw, hvalue.symm⟩
  | @literal quote _ chars _ _ =>
      rcases Lexeme.ofLiteral_cases quote chars with ⟨c, -, -, heq⟩ | heq <;> rw [heq] at hl <;>
        cases hl
  | word _ _ _ =>
      rcases Lexeme.ofWord_cases cs with ⟨k, heq⟩ | heq <;> rw [heq] at hl <;> cases hl

theorem Reads.marked
    (h : Reads none middle column ('0' :: 'b' :: (bits ++ post))
      (⟨.number (String.ofList ('0' :: 'b' :: bits)) value, column⟩ :: after) ended) :
    (∀ d ∈ post.head?, d.isAlphanum = false) ∧
      (∃ w, Numeral.ofSpelling? ('0' :: 'b' :: bits) = some w ∧ value = w.toInt32) ∧
      Reads none true (column + String.utf8Len ('0' :: 'b' :: bits)) post after ended := by
  obtain ⟨used, more, hcs, hspells, hmore⟩ := h.first
  obtain ⟨rfl, hnext, hvalue⟩ := spells_marked hspells rfl
  have hpost : post = more := by simpa using hcs
  subst hpost
  exact ⟨by simpa using hnext, hvalue, hmore⟩

theorem spells_percent {w : UInt32} (hbits : Numeral.isDigits 2 bits = true)
    (hw : Numeral.word? 2 bits = some w) (hnext : ∀ d ∈ next?, d.isAlphanum = false) :
    Lexeme.Spells false next? ('%' :: bits) (.number (String.ofList ('%' :: bits)) w.toInt32) := by
  obtain ⟨hne, hall⟩ := Numeral.isDigits_binary hbits
  obtain ⟨d, run, rfl⟩ := List.exists_cons_of_ne_nil hne
  refine .binary rfl (hall d (List.mem_cons_self ..)) ?_ hnext hw
  exact fun x hx => Numeral.isAlphanum_of_isDigit (hall x hx)

theorem map_remarked_before {place : Nat} (bits : String) (h : ∀ t ∈ ts, t.column < place) :
    ts.map (Token.remarked place bits) = ts := by
  refine (List.map_congr_left fun t ht => ?_).trans (List.map_id' ts)
  have hlt := h t ht
  rw [Token.remarked, if_neg (by omega), if_neg (by omega)]

theorem map_remarked_after {place : Nat} (bits : String) (h : ∀ t ∈ ts, place + 1 < t.column) :
    ts.map (Token.remarked place bits) = ts.map fun t => ⟨t.lexeme, t.column - 1⟩ := by
  refine List.map_congr_left fun t ht => ?_
  have hlt := h t ht
  rw [Token.remarked, if_neg (by omega), if_pos hlt]

end Token

namespace Line

variable {α : Type} {item : List Token → Result (α × List Token)} {before more : List Token}
  {w : String} {c : Nat} {x : Token}

theorem exists_dropComment (before us : List Token) (hx : ∀ s, x.lexeme ≠ .comment s) :
    ∃ more, dropComment (before ++ x :: us) = before ++ x :: more := by
  unfold dropComment
  rcases List.eq_nil_or_concat us with rfl | ⟨us, u, rfl⟩
  · rw [List.getLast?_concat]
    split
    · next s column heq =>
        cases heq
        exact absurd rfl (hx s)
    · exact ⟨[], rfl⟩
  · rw [List.concat_eq_append, ← List.cons_append, ← List.append_assoc, List.getLast?_concat,
      List.dropLast_concat]
    split
    · exact ⟨us, rfl⟩
    · exact ⟨us ++ [u], by simp⟩

theorem head_of_splitLabel (h : (splitLabel before).2 = [⟨.name w, c⟩]) :
    ∃ s column rest, before = ⟨.name s, column⟩ :: rest := by
  cases front before with
  | other hother =>
      rw [splitLabel_other hother] at h
      exact ⟨w, c, [], h⟩
  | name s column hrest => exact ⟨s, column, _, rfl⟩
  | colon s column column' hrest => exact ⟨s, column, _, rfl⟩
  | colons s column column' column'' rest => exact ⟨s, column, _, rfl⟩

theorem splitLabel_suffix (ts : List Token) : ∃ label, ts = label ++ (splitLabel ts).2 := by
  cases front ts with
  | other hother =>
      rw [splitLabel_other hother]
      exact ⟨[], rfl⟩
  | name s column hrest =>
      rw [splitLabel_name s column hrest]
      split
      · exact ⟨[⟨.name s, column⟩], rfl⟩
      · exact ⟨[], rfl⟩
  | colon s column column' hrest =>
      rw [splitLabel_colon s column column' hrest]
      exact ⟨[⟨.name s, column⟩, ⟨.punct .colon, column'⟩], rfl⟩
  | colons s column column' column'' rest =>
      exact ⟨[⟨.name s, column⟩, ⟨.punct .colon, column'⟩, ⟨.punct .colon, column''⟩], rfl⟩

theorem getLast?_of_splitLabel (h : (splitLabel before).2 = [⟨.name w, c⟩]) :
    before.getLast? = some ⟨.name w, c⟩ := by
  obtain ⟨label, hbefore⟩ := splitLabel_suffix before
  rw [hbefore, h, List.getLast?_concat]

theorem splitLabel_behind (h : (splitLabel before).2 = [⟨.name w, c⟩])
    (hx : x.lexeme ≠ .punct .colon) (more : List Token) :
    splitLabel (before ++ x :: more) = ((splitLabel before).1, ⟨.name w, c⟩ :: x :: more) := by
  have hword : NoColon (⟨.name w, c⟩ :: x :: more) := by simp [NoColon]
  have hargs : NoColon (x :: more) := by simpa [NoColon] using hx
  cases front before with
  | other hother =>
      rw [splitLabel_other hother] at h
      simp only at h
      subst h
      exact absurd rfl (hother _ rfl w)
  | name s column hrest =>
      rw [splitLabel_name s column hrest] at h ⊢
      split at h
      · next hcolumn =>
          simp only at h
          subst h
          rw [List.cons_append, List.singleton_append, splitLabel_name s column hword,
            if_pos hcolumn, if_pos hcolumn]
      · next hcolumn =>
          cases h
          rw [List.singleton_append, splitLabel_name w c hargs, if_neg hcolumn, if_neg hcolumn]
  | colon s column column' hrest =>
      rw [splitLabel_colon s column column' hrest] at h ⊢
      simp only at h
      subst h
      exact splitLabel_colon s column column' hword
  | colons s column column' column'' rest =>
      have hrest : rest = [⟨.name w, c⟩] := h
      subst hrest
      rfl

theorem ofTokens_behind (h : (splitLabel before).2 = [⟨.name w, c⟩])
    (hcolon : x.lexeme ≠ .punct .colon) (hcomment : ∀ s, x.lexeme ≠ .comment s) (us : List Token) :
    ∃ more, ofTokens (dropComment (before ++ x :: us)) = (do
      let statement ← readStatement (splitLabel before).1.isSome (Text.lower w) (x :: more)
      return ⟨(splitLabel before).1, some statement⟩) := by
  obtain ⟨more, hmore⟩ := exists_dropComment before us hcomment
  obtain ⟨s, column, rest, hbefore⟩ := head_of_splitLabel h
  refine ⟨more, ?_⟩
  rw [hmore, ofTokens_eq (by simp [hbefore]), splitLabel_behind h hcolon]
  rfl

theorem item_of_readItems {ts : List Token} {as : List α} (h : readItems item ts = .ok as) :
    ∃ r, item ts = .ok r := by
  unfold readItems at h
  cases hn : ts.length <;>
  · rw [hn, readList] at h
    obtain ⟨r, hr, -⟩ := bind_eq_ok.mp h
    exact ⟨r, hr⟩

theorem opens_of_readExpr {ts : List Token} {r : Expr × List Token} (h : readExpr ts = .ok r) :
    ∃ t rest, ts = t :: rest ∧ Expr.opens t.lexeme = true := by
  obtain ⟨used, rfl, hused, -⟩ := Expr.read_eq_ok.mp (mapError_eq_ok.mp h)
  obtain ⟨t, more, rfl, hopens⟩ := hused.opens
  exact ⟨t, more ++ r.2, rfl, hopens⟩

theorem readStatement_percent {labelled : Bool} {mnemonic : String} {statement : Statement}
    (h : readStatement labelled mnemonic (⟨.punct .percent, c⟩ :: more) = .ok statement) :
    Directive.ofName? mnemonic = none := by
  have hexpr : ∀ r, readExpr (⟨.punct .percent, c⟩ :: more) ≠ .ok r := by
    intro r hr
    obtain ⟨t, rest, heq, hopens⟩ := opens_of_readExpr hr
    cases heq
    cases hopens
  have hexprs : ∀ es, readExprs (⟨.punct .percent, c⟩ :: more) ≠ .ok es := by
    intro es hes
    obtain ⟨r, hr⟩ := item_of_readItems hes
    exact hexpr r hr
  have hitem : ∀ r, readExprItem (⟨.punct .percent, c⟩ :: more) ≠ .ok r := by
    intro r hr
    obtain ⟨r', hr', -⟩ := bind_eq_ok.mp hr
    exact hexpr r' hr'
  have hdata : ∀ width items, readData width (⟨.punct .percent, c⟩ :: more) ≠ .ok items := by
    intro width items hitems
    cases width <;>
    · obtain ⟨r, hr⟩ := item_of_readItems hitems
      exact hitem r hr
  cases hname : Directive.ofName? mnemonic with
  | none => rfl
  | some directive =>
      exfalso
      simp only [readStatement, hname] at h
      cases directive with
      | data width =>
          obtain ⟨items, hitems, -⟩ := bind_eq_ok.mp h
          exact hdata width items hitems
      | equ =>
          simp only at h
          split at h
          · obtain ⟨e, he, -⟩ := bind_eq_ok.mp h
            obtain ⟨es, hes, -⟩ := bind_eq_ok.mp he
            exact hexprs es hes
          · cases h
      | org | align | fill =>
          obtain ⟨e, he, -⟩ := bind_eq_ok.mp h
          obtain ⟨es, hes, -⟩ := bind_eq_ok.mp he
          exact hexprs es hes

theorem parse_eq {text : String} {ts : List Token} (h : Token.scan text = .ok ts) :
    parse text = ofTokens (dropComment ts) := by
  rw [parse, h]
  rfl

end Line

def Lexeme.opensOperand : Lexeme → Bool
  | punct p => p != .colon && p != .hash && p != .rightParen && p != .dollar
  | _ => false

theorem Lexeme.endsValue_of_opensOperand {l : Lexeme} (h : l.opensOperand = true) :
    l.endsValue = false := by
  cases l with
  | punct p => cases p <;> first | rfl | cases h
  | keyword _ | name _ | number _ _ | text _ | char _ | comment _ => cases h

def binaryLine (mark pre bits post : String) : String :=
  pre ++ mark ++ bits ++ post

section Marks

variable {pre bits post : String} {before after : List Token} {value : Int32} {w : String} {c : Nat}
  {line line' : Line}

theorem binaryLine_toList (mark pre bits post : String) :
    (binaryLine mark pre bits post).toList =
      pre.toList ++ (mark.toList ++ (bits.toList ++ post.toList)) := by
  simp [binaryLine]

theorem scan_percentLine {middle : Bool}
    (hfront : Token.Reads (some '%') false 0 pre.toList before middle) :
    Token.scan (binaryLine "%" pre bits post) = (do
      let ts ← Token.scanFrom 0 middle pre.utf8ByteSize ('%' :: (bits.toList ++ post.toList))
      return before ++ ts) := by
  have hpercent : Token.Reads ('%' :: (bits.toList ++ post.toList)).head? false 0 pre.toList before
      middle := hfront
  rw [Token.scan, binaryLine_toList, ← String.utf8Len_toList, ← Nat.zero_add (String.utf8Len _)]
  exact hpercent.scanFrom_eq

section Cut

variable (hscan : Token.scan (binaryLine "0b" pre bits post) =
  .ok (before ++ ⟨.number ("0b" ++ bits) value, pre.utf8ByteSize⟩ :: after))

include hscan

theorem cut_binaryLine :
    ∃ middle ended, Token.Reads (some '%') false 0 pre.toList before middle ∧
      Token.Reads none middle pre.utf8ByteSize ('0' :: 'b' :: (bits.toList ++ post.toList))
        (⟨.number (String.ofList ('0' :: 'b' :: bits.toList)) value, pre.utf8ByteSize⟩ :: after)
        ended := by
  obtain ⟨ended, hreads⟩ := Token.reads_of_scanFrom hscan
  obtain ⟨middle, hfront, hback⟩ := hreads.cut (binaryLine_toList "0b" pre bits post) rfl
    (by rw [String.utf8Len_toList, Nat.zero_add])
  have hspelling : "0b" ++ bits = String.ofList ('0' :: 'b' :: bits.toList) := by
    apply String.toList_injective
    simp
  refine ⟨middle, ended, hfront.before (by simp) ?_, hspelling ▸ hback⟩
  intro d hd
  cases hd
  decide

theorem scan_percentLine_operand (hbits : Numeral.isDigits 2 bits.toList = true)
    (hopens : ∃ t ∈ before.getLast?, t.lexeme.opensOperand = true) :
    Token.scan (binaryLine "%" pre bits post) =
      .ok ((before ++ ⟨.number ("0b" ++ bits) value, pre.utf8ByteSize⟩ :: after).map
        (Token.remarked pre.utf8ByteSize bits)) := by
  obtain ⟨middle, ended, hfront, hback⟩ := cut_binaryLine hscan
  obtain ⟨hnext, ⟨w, hw, rfl⟩, hafter⟩ := hback.marked
  obtain ⟨t, ht, hopens⟩ := hopens
  have hmiddle : middle = false := by
    rw [hfront.ended_eq, Option.mem_def.mp ht]
    exact Lexeme.endsValue_of_opensOperand hopens
  rw [Numeral.ofSpelling?_binary hbits] at hw
  have hspells := Token.spells_percent hbits hw hnext
  have hlength : pre.utf8ByteSize + String.utf8Len ('0' :: 'b' :: bits.toList) =
      pre.utf8ByteSize + String.utf8Len ('%' :: bits.toList) + 1 := by
    have hzero : '0'.utf8Size = 1 := rfl
    have hmark : 'b'.utf8Size = 1 := rfl
    have hpercent : '%'.utf8Size = 1 := rfl
    simp only [String.utf8Len_cons, hzero, hmark, hpercent]
    omega
  have hback' : Token.Reads none false pre.utf8ByteSize (('%' :: bits.toList) ++ post.toList)
      (⟨.number ("%" ++ bits) w.toInt32, pre.utf8ByteSize⟩ ::
        after.map fun t => ⟨t.lexeme, t.column - 1⟩) ended := by
    have hspelling : "%" ++ bits = String.ofList ('%' :: bits.toList) := by
      apply String.toList_injective
      simp
    rw [hspelling]
    exact .token (by simpa using hspells) (hafter.shift hlength)
  have hbefore : ∀ t ∈ before, t.column < pre.utf8ByteSize := by
    intro t ht
    have hlt := hfront.column_lt t ht
    rwa [String.utf8Len_toList, Nat.zero_add] at hlt
  have hbehind : ∀ t ∈ after, pre.utf8ByteSize + 1 < t.column := by
    intro t ht
    have hle := hafter.le_column t ht
    have hpos := '%'.utf8Size_pos
    rw [hlength, String.utf8Len_cons] at hle
    omega
  subst hmiddle
  rw [scan_percentLine hfront, ← List.cons_append, hback'.scanFrom_ok, List.map_append,
    List.map_cons, Token.map_remarked_before bits hbefore, Token.map_remarked_after bits hbehind]
  simp only [Token.remarked, Lexeme.remarked, if_true]
  rw [if_neg (by omega)]
  rfl

theorem percentLine_behind (hword : (Line.splitLabel before).2 = [⟨.name w, c⟩])
    (h : Line.parse (binaryLine "%" pre bits post) = .ok line') :
    ∃ us, Line.ofTokens (Line.dropComment (before ++ ⟨.punct .percent, pre.utf8ByteSize⟩ :: us)) =
      .ok line' := by
  obtain ⟨middle, ended, hfront, -⟩ := cut_binaryLine hscan
  have hmiddle : middle = true := by
    rw [hfront.ended_eq, Line.getLast?_of_splitLabel hword]
    rfl
  subst hmiddle
  obtain ⟨ts, hts, hline⟩ := bind_eq_ok.mp h
  rw [mapError_eq_ok, scan_percentLine hfront, Token.scanFrom_percent, bind_assoc] at hts
  obtain ⟨us, -, hts⟩ := bind_eq_ok.mp hts
  cases hts
  exact ⟨us, hline⟩

theorem operands_behind (hword : (Line.splitLabel before).2 = [⟨.name w, c⟩])
    (h : Line.parse (binaryLine "0b" pre bits post) = .ok line)
    (h' : Line.parse (binaryLine "%" pre bits post) = .ok line') :
    ∃ operands operands',
      line.statement = some (.instruction (Text.lower w)
        (⟨.number ("0b" ++ bits) value, pre.utf8ByteSize⟩ :: operands)) ∧
      line'.statement = some (.instruction (Text.lower w)
        (⟨.punct .percent, pre.utf8ByteSize⟩ :: operands')) := by
  obtain ⟨us, hline'⟩ := percentLine_behind hscan hword h'
  rw [Line.parse_eq hscan] at h
  obtain ⟨more, hnumber⟩ := Line.ofTokens_behind (x := ⟨.number ("0b" ++ bits) value,
    pre.utf8ByteSize⟩) hword (by simp) (by simp) after
  obtain ⟨more', hpercent⟩ := Line.ofTokens_behind (x := ⟨.punct .percent, pre.utf8ByteSize⟩)
    hword (by simp) (by simp) us
  rw [hnumber] at h
  rw [hpercent] at hline'
  obtain ⟨statement, hstatement, hok⟩ := bind_eq_ok.mp h
  obtain ⟨statement', hstatement', hok'⟩ := bind_eq_ok.mp hline'
  -- Only an instruction takes an operator as its first operand.
  have hinstruction := Line.readStatement_percent hstatement'
  rw [Line.readStatement, hinstruction] at hstatement hstatement'
  cases hstatement
  cases hstatement'
  cases hok
  cases hok'
  exact ⟨more, more', rfl, rfl⟩

end Cut

theorem percent_marks_operands (pre bits post : String) (before after : List Token) (value : Int32)
    (hbits : Numeral.isDigits 2 bits.toList = true)
    (hscan : Token.scan (binaryLine "0b" pre bits post) =
      .ok (before ++ ⟨.number ("0b" ++ bits) value, pre.utf8ByteSize⟩ :: after)) :
    ((∃ t ∈ before.getLast?, t.lexeme.opensOperand = true) →
      Corresponds (fun line line' => line' = line.remarked pre.utf8ByteSize bits)
        (Line.parse (binaryLine "0b" pre bits post))
        (Line.parse (binaryLine "%" pre bits post))) ∧
    ∀ w c line line', (Line.splitLabel before).2 = [⟨.name w, c⟩] →
      Line.parse (binaryLine "0b" pre bits post) = .ok line →
      Line.parse (binaryLine "%" pre bits post) = .ok line' →
      ∃ operands operands',
        line.statement = some (.instruction (Text.lower w)
          (⟨.number ("0b" ++ bits) value, pre.utf8ByteSize⟩ :: operands)) ∧
        line'.statement = some (.instruction (Text.lower w)
          (⟨.punct .percent, pre.utf8ByteSize⟩ :: operands')) := by
  constructor
  · intro hopens
    rw [Line.parse_eq hscan, Line.parse_eq (scan_percentLine_operand hscan hbits hopens)]
    exact Line.ofTokens_remarked ..
  · intro w c line line' hword h h'
    exact operands_behind hscan hword h h'

theorem percent_in_sum :
    Corresponds (fun line line' => line' = line.remarked 18 "101")
      (Line.parse "loop: ld a,(table+0b101) ; five")
      (Line.parse "loop: ld a,(table+%101) ; five") := by
  have hscan : Token.scan (binaryLine "0b" "loop: ld a,(table+" "101" ") ; five") = .ok
      ([⟨.name "loop", 0⟩, ⟨.punct .colon, 4⟩, ⟨.name "ld", 6⟩, ⟨.keyword .a, 9⟩,
        ⟨.punct .comma, 10⟩, ⟨.punct .leftParen, 11⟩, ⟨.name "table", 12⟩, ⟨.punct .plus, 17⟩] ++
        ⟨.number "0b101" 5, 18⟩ :: [⟨.punct .rightParen, 23⟩, ⟨.comment " five", 25⟩]) := by
    decide +kernel
  exact (percent_marks_operands _ _ _ _ _ 5 (by decide) hscan).1
    ⟨⟨.punct .plus, 17⟩, rfl, by decide⟩

theorem percent_behind_word :
    Line.parse " db 0b101" = .ok ⟨none, some (.data .byte [.expr (.number 5)])⟩ ∧
      Line.parse " db %101" = .error (.syntactic (.strayInExpression (.punct .percent))) := by
  decide +kernel

end Marks

end Z80
