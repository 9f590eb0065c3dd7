import Mathlib
import Z80.Proofs.Correspondence
import Z80.Proofs.Grammar
import Z80.Statement.Parser

namespace Z80

structure TokenMap where
  name : String → String
  spelling : Nat → String → String
  comment : String → String
  column : Nat → Nat
  name_lower : ∀ s, Text.lower (name s) = Text.lower s
  column_eq_zero : ∀ n, column n = 0 ↔ n = 0

namespace TokenMap

def lexeme (m : TokenMap) (place : Nat) : Lexeme → Lexeme
  | .name s => .name (m.name s)
  | .number spelling value => .number (m.spelling place spelling) value
  | .comment s => .comment (m.comment s)
  | l => l

def token (m : TokenMap) (t : Token) : Token :=
  ⟨m.lexeme t.column t.lexeme, m.column t.column⟩

def statement (m : TokenMap) : Statement → Statement
  | .instruction mnemonic operands => .instruction mnemonic (operands.map m.token)
  | .segment name address => .segment (m.name name) (address.map (Expr.rename m.name))
  | s => s.rename m.name

def line (m : TokenMap) (line : Line) : Line where
  label := line.label.map (Label.rename m.name)
  statement := line.statement.map m.statement

variable {m : TokenMap} {place : Nat} {l : Lexeme} {ts : List Token}

theorem lexeme_eq_punct {p : Punct} : m.lexeme place l = .punct p ↔ l = .punct p := by
  cases l <;> simp [lexeme]

theorem token_eq_punct {t : Token} {p : Punct} :
    (m.token t).lexeme = .punct p ↔ t.lexeme = .punct p :=
  lexeme_eq_punct

@[simp] theorem lexeme_name (m : TokenMap) (place : Nat) (s : String) :
    m.lexeme place (.name s) = .name (m.name s) :=
  rfl

theorem name_of_lexeme {s : String} (h : m.lexeme place l = .name s) : ∃ r, l = .name r := by
  cases l with
  | name r => exact ⟨r, rfl⟩
  | _ => cases h

theorem head?_token {P : Lexeme → Prop} (hP : ∀ place l, P l → P (m.lexeme place l))
    (h : ∀ t ∈ ts.head?, P t.lexeme) : ∀ u ∈ (ts.map m.token).head?, P u.lexeme := by
  intro u hu
  rw [List.head?_map, Option.mem_def, Option.map_eq_some_iff] at hu
  obtain ⟨t, ht, rfl⟩ := hu
  exact hP t.column t.lexeme (h t ht)

theorem takes_token (m : TokenMap) (t : PatternToken) (u : Token) :
    t.takes (m.token u).lexeme = t.takes u.lexeme := by
  obtain ⟨l, column⟩ := u
  cases l with
  | name s => cases t <;> simp [PatternToken.takes, token, m.name_lower]
  | number _ _ | comment _ => cases t <;> rfl
  | punct _ | keyword _ | text _ | char _ => rfl

end TokenMap

namespace Expr

variable {m : TokenMap} {place : Nat} {level : Level} {ls : List Level} {ts us rest : List Token}
  {e : Expr}

theorem op?_lexeme (level : Level) (l : Lexeme) :
    level.op? (m.lexeme place l) = level.op? l := by
  cases l <;> rfl

theorem prefixOp?_lexeme (l : Lexeme) : prefixOp? (m.lexeme place l) = prefixOp? l := by
  cases l <;> rfl

theorem ofLexeme?_lexeme (l : Lexeme) :
    ofLexeme? (m.lexeme place l) = (ofLexeme? l).map (Expr.rename m.name) := by
  cases l with
  | punct p => cases p <;> rfl
  | text s =>
      simp only [TokenMap.lexeme, ofLexeme?]
      split <;> rfl
  | keyword _ | name _ | number _ _ | char _ | comment _ => rfl

theorem Phrase.mapped (m : TokenMap) (h : Phrase ls ts e) :
    Phrase ls (ts.map m.token) (e.rename m.name) := by
  induction h with
  | @token t e ht =>
      refine .token ?_
      rw [TokenMap.token, ofLexeme?_lexeme, ht, Option.map_some]
  | @signed t op ts e ht _ ih =>
      rw [← prefixed_rename]
      exact .signed (by rwa [TokenMap.token, prefixOp?_lexeme]) ih
  | parenthesized ht _ hu ih =>
      rw [List.map_cons, List.map_append]
      exact .parenthesized (TokenMap.lexeme_eq_punct.mpr ht) ih (TokenMap.lexeme_eq_punct.mpr hu)
  | operand _ ih => exact .operand ih
  | binary _ ht _ ihl ihr =>
      rw [List.map_append, List.map_cons]
      exact .binary ihl (by rwa [TokenMap.token, op?_lexeme]) ihr

theorem Phrase.of_mapped (m : TokenMap) {us : List Token} {e' : Expr} (h : Phrase ls us e') :
    ∀ {ts : List Token}, ts.map m.token = us → ∃ e, Phrase ls ts e ∧ e.rename m.name = e' := by
  induction h with
  | @token u e' hu =>
      intro ts hts
      obtain ⟨t, rfl, rfl⟩ := List.map_eq_singleton_iff.mp hts
      rw [TokenMap.token, ofLexeme?_lexeme, Option.map_eq_some_iff] at hu
      obtain ⟨e, he, heq⟩ := hu
      exact ⟨e, .token he, heq⟩
  | @signed u op us e' hu _ ih =>
      intro ts hts
      obtain ⟨t, more, rfl, rfl, hmore⟩ := List.map_eq_cons_iff.mp hts
      obtain ⟨e, he, rfl⟩ := ih hmore
      rw [TokenMap.token, prefixOp?_lexeme] at hu
      exact ⟨_, .signed hu he, (prefixed_rename m.name op e).symm⟩
  | parenthesized ht _ hu ih =>
      intro ts hts
      obtain ⟨t, more, rfl, rfl, hmore⟩ := List.map_eq_cons_iff.mp hts
      obtain ⟨inner, last, rfl, hinner, hlast⟩ := List.map_eq_append_iff.mp hmore
      obtain ⟨u, rfl, rfl⟩ := List.map_eq_singleton_iff.mp hlast
      obtain ⟨e, he, heq⟩ := ih hinner
      exact ⟨e, .parenthesized (TokenMap.lexeme_eq_punct.mp ht) he
        (TokenMap.lexeme_eq_punct.mp hu), heq⟩
  | operand _ ih =>
      intro ts hts
      obtain ⟨e, he, heq⟩ := ih hts
      exact ⟨e, .operand he, heq⟩
  | binary _ ht _ ihl ihr =>
      intro ts hts
      obtain ⟨front, more, rfl, hfront, hmore⟩ := List.map_eq_append_iff.mp hts
      obtain ⟨t, back, rfl, rfl, hback⟩ := List.map_eq_cons_iff.mp hmore
      obtain ⟨l, hl, rfl⟩ := ihl hfront
      obtain ⟨r, hr, rfl⟩ := ihr hback
      rw [TokenMap.token, op?_lexeme] at ht
      exact ⟨_, .binary hl ht hr, rfl⟩

theorem stops_mapped (m : TokenMap) : Stops ls (ts.map m.token) ↔ Stops ls ts := by
  constructor
  · intro h t ht level hlevel
    have hop := h (m.token t) (by rw [List.head?_map, ht]; rfl) level hlevel
    rwa [TokenMap.token, op?_lexeme] at hop
  · intro h
    refine TokenMap.head?_token (P := fun l => ∀ level ∈ ls, level.op? l = none) ?_ h
    intro place l hl level hlevel
    rw [op?_lexeme, hl level hlevel]

theorem read_mapped (m : TokenMap) (h : read ts = .ok (e, rest)) :
    read (ts.map m.token) = .ok (e.rename m.name, rest.map m.token) := by
  obtain ⟨used, rfl, hphrase, hstops⟩ := read_eq_ok.mp h
  exact read_eq_ok.mpr ⟨used.map m.token, List.map_append .., hphrase.mapped m,
    (stops_mapped m).mpr hstops⟩

theorem read_of_mapped (m : TokenMap) {e' : Expr} (h : read (ts.map m.token) = .ok (e', us)) :
    ∃ r, read ts = .ok r := by
  obtain ⟨mapped, hts, hphrase, hstops⟩ := read_eq_ok.mp h
  obtain ⟨used, rest, rfl, hused, rfl⟩ := List.map_eq_append_iff.mp hts
  obtain ⟨e, he, -⟩ := hphrase.of_mapped m hused
  exact ⟨(e, rest), read_eq_ok.mpr ⟨used, rfl, he, (stops_mapped m).mp hstops⟩⟩

theorem readBare_mapped (m : TokenMap) (h : readBare ts = .ok (e, rest)) :
    readBare (ts.map m.token) = .ok (e.rename m.name, rest.map m.token) := by
  cases ts with
  | nil => exact read_mapped m h
  | cons t ts =>
      simp only [List.map_cons, readBare, TokenMap.token_eq_punct] at h ⊢
      split at h
      · cases h
      · next hparen =>
          have hread := read_mapped m h
          rwa [if_neg hparen]

theorem readBare_of_mapped (m : TokenMap) {r : Expr × List Token}
    (h : readBare (ts.map m.token) = .ok r) : ∃ r, readBare ts = .ok r := by
  cases ts with
  | nil => exact ⟨r, h⟩
  | cons t ts =>
      simp only [List.map_cons, readBare, TokenMap.token_eq_punct] at h ⊢
      split at h
      · cases h
      · next hparen =>
          rw [if_neg hparen]
          exact read_of_mapped m h

theorem readsAlike_token (m : TokenMap) : ReadsAlike m.name m.token where
  punct t p := TokenMap.token_eq_punct
  ok _ _ _ h := readBare_mapped m h
  error ts fault h := by
    cases hread : readBare (ts.map m.token) with
    | error fault' => exact ⟨fault', rfl⟩
    | ok r =>
        obtain ⟨r', hr⟩ := readBare_of_mapped m hread
        rw [h] at hr
        cases hr

end Expr

namespace Line

def SameRead {α : Type} (m : TokenMap) (f : α → α) (r r' : α × List Token) : Prop :=
  r' = (f r.1, r.2.map m.token)

variable {α : Type} {m : TokenMap} {f : α → α} {item : List Token → Result (α × List Token)}

theorem readExpr_mapped (m : TokenMap) (ts : List Token) :
    Corresponds (SameRead m (Expr.rename m.name)) (readExpr ts) (readExpr (ts.map m.token)) := by
  unfold readExpr
  cases hread : Expr.read ts with
  | ok r =>
      rw [Expr.read_mapped m hread]
      exact .ok rfl
  | error fault =>
      cases hread' : Expr.read (ts.map m.token) with
      | error fault' => exact .error rfl
      | ok r =>
          obtain ⟨r', hr⟩ := Expr.read_of_mapped m hread'
          rw [hread] at hr
          cases hr

theorem readList_mapped
    (h : ∀ ts, Corresponds (SameRead m f) (item ts) (item (ts.map m.token))) (n : Nat) :
    ∀ ts, Corresponds (fun as as' => as' = as.map f) (readList item n ts)
      (readList item n (ts.map m.token)) := by
  induction n with
  | zero =>
      intro ts
      refine (h ts).bind ?_
      rintro ⟨a, rest⟩ _ rfl
      cases rest with
      | nil => exact .ok rfl
      | cons t rest => exact .error rfl
  | succ n ih =>
      intro ts
      refine (h ts).bind ?_
      rintro ⟨a, rest⟩ _ rfl
      cases rest with
      | nil => exact .ok rfl
      | cons t rest =>
          simp only [List.map_cons, TokenMap.token, TokenMap.lexeme_eq_punct]
          split
          · refine (ih rest).bind ?_
            rintro as _ rfl
            exact .ok rfl
          · exact .error rfl

theorem readItems_mapped
    (h : ∀ ts, Corresponds (SameRead m f) (item ts) (item (ts.map m.token))) (ts : List Token) :
    Corresponds (fun as as' => as' = as.map f) (readItems item ts)
      (readItems item (ts.map m.token)) := by
  unfold readItems
  rw [List.length_map]
  exact readList_mapped h ts.length ts

theorem readExprs_mapped (m : TokenMap) (ts : List Token) :
    Corresponds (fun es es' => es' = es.map (Expr.rename m.name)) (readExprs ts)
      (readExprs (ts.map m.token)) :=
  readItems_mapped (readExpr_mapped m) ts

theorem readSingle_mapped (m : TokenMap) (ts : List Token) :
    Corresponds (fun e e' => e' = e.rename m.name) (readSingle ts)
      (readSingle (ts.map m.token)) := by
  refine (readExprs_mapped m ts).bind ?_
  rintro es _ rfl
  match es with
  | [e] => exact .ok rfl
  | [] | _ :: _ :: _ => exact .error rfl

theorem readWithFill_mapped (m : TokenMap) (ts : List Token) :
    Corresponds (fun r r' => r' = (r.1.rename m.name, r.2.map (Expr.rename m.name)))
      (readWithFill ts) (readWithFill (ts.map m.token)) := by
  refine (readExprs_mapped m ts).bind ?_
  rintro es _ rfl
  match es with
  | [e] | [e, fill] => exact .ok rfl
  | [] | _ :: _ :: _ :: _ => exact .error rfl

theorem adjustOp?_lexeme (place : Nat) (l : Lexeme) :
    adjustOp? (m.lexeme place l) = adjustOp? l := by
  cases l <;> rfl

theorem readAdjust_mapped (m : TokenMap) (ts : List Token) :
    Corresponds (SameRead m (Option.map fun a => (a.1, a.2.rename m.name))) (readAdjust ts)
      (readAdjust (ts.map m.token)) := by
  cases ts with
  | nil => exact .ok rfl
  | cons t ts =>
      simp only [List.map_cons, readAdjust, TokenMap.token, adjustOp?_lexeme]
      cases adjustOp? t.lexeme with
      | none => exact .ok rfl
      | some op =>
          refine (readExpr_mapped m ts).bind ?_
          rintro ⟨e, rest⟩ _ rfl
          exact .ok rfl

theorem readExprItem_mapped (m : TokenMap) (ts : List Token) :
    Corresponds (SameRead m (DataItem.rename m.name)) (readExprItem ts)
      (readExprItem (ts.map m.token)) := by
  refine (readExpr_mapped m ts).bind ?_
  rintro ⟨e, rest⟩ _ rfl
  exact .ok rfl

theorem readByteItem_mapped (m : TokenMap) (ts : List Token) :
    Corresponds (SameRead m (DataItem.rename m.name)) (readByteItem ts)
      (readByteItem (ts.map m.token)) := by
  cases ts with
  | nil => exact readExprItem_mapped m []
  | cons t ts =>
      obtain ⟨l, column⟩ := t
      cases l with
      | text s =>
          refine (readAdjust_mapped m ts).bind ?_
          rintro ⟨adjust, rest⟩ _ rfl
          refine (Corresponds.refl (textBytes s.toList)).bind ?_
          rintro bytes _ rfl
          exact .ok rfl
      | name s =>
          have hname : Predefined.ofName? (m.name s) = Predefined.ofName? s := by
            simp only [Predefined.ofName?, m.name_lower]
          simp only [List.map_cons, readByteItem, TokenMap.token, TokenMap.lexeme_name, hname]
          cases Predefined.ofName? s with
          | some p => exact .ok rfl
          | none => exact readExprItem_mapped m (⟨.name s, column⟩ :: ts)
      | number s v => exact readExprItem_mapped m (⟨.number s v, column⟩ :: ts)
      | punct p => exact readExprItem_mapped m (⟨.punct p, column⟩ :: ts)
      | keyword k => exact readExprItem_mapped m (⟨.keyword k, column⟩ :: ts)
      | char c => exact readExprItem_mapped m (⟨.char c, column⟩ :: ts)
      | comment s => exact readExprItem_mapped m (⟨.comment s, column⟩ :: ts)

theorem readData_mapped (m : TokenMap) (width : DataWidth) (ts : List Token) :
    Corresponds (fun items items' => items' = items.map (DataItem.rename m.name))
      (readData width ts) (readData width (ts.map m.token)) := by
  cases width with
  | byte => exact readItems_mapped (readByteItem_mapped m) ts
  | word | long => exact readItems_mapped (readExprItem_mapped m) ts

def SameStatement (m : TokenMap) (s s' : Statement) : Prop :=
  s' = m.statement s

theorem readStatement_mapped (m : TokenMap) (labelled : Bool) (mnemonic : String)
    (args : List Token) :
    Corresponds (SameStatement m) (readStatement labelled mnemonic args)
      (readStatement labelled mnemonic (args.map m.token)) := by
  unfold readStatement
  split
  · next width _ =>
      refine (readData_mapped m width args).bind ?_
      rintro items _ rfl
      exact .ok rfl
  · split
    · refine (readSingle_mapped m args).bind ?_
      rintro e _ rfl
      exact .ok rfl
    · exact .error rfl
  · refine (readSingle_mapped m args).bind ?_
    rintro e _ rfl
    exact .ok rfl
  · refine (readWithFill_mapped m args).bind ?_
    rintro r _ rfl
    exact .ok rfl
  · refine (readWithFill_mapped m args).bind ?_
    rintro r _ rfl
    exact .ok rfl
  · exact .ok rfl

theorem readSegment_mapped (m : TokenMap) (args : List Token) :
    Corresponds (SameStatement m) (readSegment args) (readSegment (args.map m.token)) := by
  cases args with
  | nil => exact .error rfl
  | cons t args =>
      obtain ⟨l, column⟩ := t
      cases l with
      | name s =>
          cases args with
          | nil => exact .ok rfl
          | cons u args =>
              simp only [List.map_cons, readSegment, TokenMap.token, TokenMap.lexeme_name,
                TokenMap.lexeme_eq_punct]
              split
              · refine (readExprs_mapped m args).bind ?_
                rintro es _ rfl
                rw [List.length_map]
                split
                · exact .error rfl
                · exact .ok (by simp [SameStatement, TokenMap.statement])
              · exact .error rfl
      | number _ _ | punct _ | keyword _ | text _ | char _ | comment _ => exact .error rfl

theorem readTarget_mapped (m : TokenMap) (args : List Token) :
    Corresponds (SameStatement m) (readTarget args) (readTarget (args.map m.token)) := by
  cases args with
  | nil => exact .error rfl
  | cons t args =>
      obtain ⟨l, column⟩ := t
      cases l with
      | name s =>
          cases args with
          | nil =>
              have hname : Target.ofName? (m.name s) = Target.ofName? s := by
                simp only [Target.ofName?, m.name_lower]
              simp only [List.map_cons, List.map_nil, readTarget, TokenMap.token,
                TokenMap.lexeme_name, hname]
              cases Target.ofName? s with
              | some target => exact .ok rfl
              | none => exact .error rfl
          | cons u args => exact .error rfl
      | number _ _ | punct _ | keyword _ | text _ | char _ | comment _ => exact .error rfl

theorem withoutArgs_mapped {s : Statement} (hs : m.statement s = s) (args : List Token) :
    Corresponds (SameStatement m) (withoutArgs s args) (withoutArgs s (args.map m.token)) := by
  cases args with
  | nil => exact .ok hs.symm
  | cons t args => exact .error rfl

theorem readHash_mapped (m : TokenMap) (ts : List Token) :
    Corresponds (SameStatement m) (readHash ts) (readHash (ts.map m.token)) := by
  cases ts with
  | nil => exact .error rfl
  | cons t args =>
      obtain ⟨l, column⟩ := t
      cases l with
      | name s =>
          simp only [List.map_cons, readHash, TokenMap.token, TokenMap.lexeme_name, m.name_lower]
          split
          · exact readSegment_mapped m args
          split
          · exact withoutArgs_mapped rfl args
          split
          · exact withoutArgs_mapped rfl args
          split
          · exact readTarget_mapped m args
          · exact .error rfl
      | number _ _ | punct _ | keyword _ | text _ | char _ | comment _ => exact .error rfl

def NoColon (ts : List Token) : Prop :=
  ∀ t ∈ ts.head?, t.lexeme ≠ .punct .colon

inductive Front : List Token → Prop
  | other {ts : List Token} : (∀ t ∈ ts.head?, ∀ s, t.lexeme ≠ .name s) → Front ts
  | name (s : String) (column : Nat) {rest : List Token} : NoColon rest →
      Front (⟨.name s, column⟩ :: rest)
  | colon (s : String) (column column' : Nat) {rest : List Token} : NoColon rest →
      Front (⟨.name s, column⟩ :: ⟨.punct .colon, column'⟩ :: rest)
  | colons (s : String) (column column' column'' : Nat) (rest : List Token) :
      Front (⟨.name s, column⟩ :: ⟨.punct .colon, column'⟩ :: ⟨.punct .colon, column''⟩ :: rest)

theorem noColon_or (ts : List Token) :
    NoColon ts ∨ ∃ column rest, ts = ⟨.punct .colon, column⟩ :: rest := by
  cases ts with
  | nil => exact .inl (by simp [NoColon])
  | cons t ts =>
      obtain ⟨l, column⟩ := t
      by_cases hl : l = .punct .colon
      · exact .inr ⟨column, ts, by rw [hl]⟩
      · exact .inl (by simpa [NoColon] using hl)

theorem front (ts : List Token) : Front ts := by
  by_cases hname : ∀ t ∈ ts.head?, ∀ s, t.lexeme ≠ .name s
  · exact .other hname
  push Not at hname
  obtain ⟨⟨_, column⟩, ht, s, rfl⟩ := hname
  obtain ⟨rest, rfl⟩ := List.head?_eq_some_iff.mp ht
  rcases noColon_or rest with hrest | ⟨column', more, rfl⟩
  · exact .name s column hrest
  rcases noColon_or more with hmore | ⟨column'', more, rfl⟩
  · exact .colon s column column' hmore
  · exact .colons s column column' column'' more

theorem splitLabel_other {ts : List Token} (h : ∀ t ∈ ts.head?, ∀ s, t.lexeme ≠ .name s) :
    splitLabel ts = (none, ts) := by
  unfold splitLabel
  split
  · exact absurd rfl (h _ rfl _)
  · rfl

theorem splitLabel_name (s : String) (column : Nat) {rest : List Token} (h : NoColon rest) :
    splitLabel (⟨.name s, column⟩ :: rest) =
      if column = 0 then (some ⟨s, false⟩, rest) else (none, ⟨.name s, column⟩ :: rest) := by
  unfold splitLabel
  dsimp only
  split
  · exact absurd rfl (h _ rfl)
  · exact absurd rfl (h _ rfl)
  · rfl

theorem splitLabel_colon (s : String) (column column' : Nat) {rest : List Token}
    (h : NoColon rest) :
    splitLabel (⟨.name s, column⟩ :: ⟨.punct .colon, column'⟩ :: rest) =
      (some ⟨s, false⟩, rest) := by
  unfold splitLabel
  dsimp only
  split
  · next heq =>
      cases heq
      exact absurd rfl (h _ rfl)
  · next heq =>
      cases heq
      rfl
  · next hcolon => exact absurd rfl (hcolon _ _)

theorem NoColon.mapped {ts : List Token} (h : NoColon ts) (m : TokenMap) :
    NoColon (ts.map m.token) :=
  TokenMap.head?_token (P := (· ≠ .punct .colon)) (fun _ _ => mt TokenMap.lexeme_eq_punct.mp) h

theorem splitLabel_mapped (m : TokenMap) (ts : List Token) :
    splitLabel (ts.map m.token) =
      ((splitLabel ts).1.map (Label.rename m.name), (splitLabel ts).2.map m.token) := by
  cases front ts with
  | other hother =>
      rw [splitLabel_other hother, splitLabel_other]
      · rfl
      · refine TokenMap.head?_token (P := fun l => ∀ s, l ≠ .name s) ?_ hother
        intro place l hl s hs
        obtain ⟨r, hr⟩ := TokenMap.name_of_lexeme hs
        exact hl r hr
  | name s column hrest =>
      rw [List.map_cons, TokenMap.token, TokenMap.lexeme_name, splitLabel_name _ _ (hrest.mapped m),
        splitLabel_name _ _ hrest]
      simp only [m.column_eq_zero]
      split <;> rfl
  | colon s column column' hrest =>
      rw [splitLabel_colon _ _ _ hrest]
      exact splitLabel_colon (m.name s) _ _ (hrest.mapped m)
  | colons s column column' column'' rest => rfl

def readBehind (label : Option Label) : List Token → Result Line
  | [] => .ok ⟨label, none⟩
  | ⟨.name name, _⟩ :: args => do
      let statement ← readStatement label.isSome (Text.lower name) args
      return ⟨label, some statement⟩
  | t :: _ => syntactic (.mnemonicExpected t.lexeme)

theorem ofTokens_eq {ts : List Token} (h : ∀ t ∈ ts.head?, t.lexeme ≠ .punct .hash) :
    ofTokens ts = readBehind (splitLabel ts).1 (splitLabel ts).2 := by
  unfold ofTokens
  split
  · exact absurd rfl (h _ rfl)
  · rfl

theorem readBehind_mapped (m : TokenMap) (label : Option Label) (ts : List Token) :
    Corresponds (fun line line' => line' = m.line line) (readBehind label ts)
      (readBehind (label.map (Label.rename m.name)) (ts.map m.token)) := by
  cases ts with
  | nil => exact .ok rfl
  | cons t args =>
      obtain ⟨l, column⟩ := t
      cases l with
      | name s =>
          simp only [List.map_cons, readBehind, TokenMap.token, TokenMap.lexeme_name, m.name_lower,
            Option.isSome_map]
          refine (readStatement_mapped m label.isSome (Text.lower s) args).bind ?_
          rintro statement _ rfl
          exact .ok rfl
      | number _ _ | punct _ | keyword _ | text _ | char _ | comment _ => exact .error rfl

theorem ofTokens_mapped (m : TokenMap) (ts : List Token) :
    Corresponds (fun line line' => line' = m.line line) (ofTokens ts)
      (ofTokens (ts.map m.token)) := by
  by_cases hhash : ∀ t ∈ ts.head?, t.lexeme ≠ .punct .hash
  · have hhash' := TokenMap.head?_token (m := m) (P := (· ≠ .punct .hash))
      (fun _ _ => mt TokenMap.lexeme_eq_punct.mp) hhash
    rw [ofTokens_eq hhash, ofTokens_eq hhash', splitLabel_mapped]
    exact readBehind_mapped ..
  · push Not at hhash
    obtain ⟨⟨_, column⟩, ht, rfl⟩ := hhash
    obtain ⟨rest, rfl⟩ := List.head?_eq_some_iff.mp ht
    refine (readHash_mapped m rest).bind ?_
    rintro statement _ rfl
    exact .ok rfl

theorem dropComment_mapped (m : TokenMap) (ts : List Token) :
    dropComment (ts.map m.token) = (dropComment ts).map m.token := by
  unfold dropComment
  rw [List.getLast?_map]
  cases ts.getLast? with
  | none => rfl
  | some t =>
      obtain ⟨l, column⟩ := t
      cases l with
      | comment s => exact List.map_dropLast.symm
      | number _ _ | punct _ | keyword _ | text _ | char _ | name _ => rfl

theorem ofTokens_corresponds (m : TokenMap) {ts us : List Token}
    (h : us.map m.token = ts.map m.token) :
    Corresponds (fun line line' => m.line line' = m.line line) (ofTokens (dropComment ts))
      (ofTokens (dropComment us)) := by
  have hfirst := ofTokens_mapped m (dropComment ts)
  have hsecond := ofTokens_mapped m (dropComment us)
  rw [← dropComment_mapped] at hfirst hsecond
  rw [h] at hsecond
  generalize ofTokens (dropComment (ts.map m.token)) = common at hfirst hsecond
  generalize ofTokens (dropComment ts) = first at hfirst
  generalize ofTokens (dropComment us) = second at hsecond
  cases hfirst with
  | ok hline =>
      cases hsecond with
      | ok hline' => exact .ok (hline'.symm.trans hline)
  | error hkind =>
      cases hsecond with
      | error hkind' => exact .error (hkind'.symm.trans hkind)

end Line

end Z80
