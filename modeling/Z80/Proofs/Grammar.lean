import Mathlib
import Z80.Expr.Parser
import Z80.Proofs.Evaluation

namespace Z80

namespace Expr

inductive Phrase : List Level → List Token → Expr → Prop
  | token {t : Token} {e : Expr} : ofLexeme? t.lexeme = some e → Phrase [] [t] e
  | signed {t : Token} {op : UnaryOp} {ts : List Token} {e : Expr} :
      prefixOp? t.lexeme = some op → Phrase [] ts e → Phrase [] (t :: ts) (prefixed op e)
  | parenthesized {t u : Token} {ts : List Token} {e : Expr} : t.lexeme = .punct .leftParen →
      Phrase levels ts e → u.lexeme = .punct .rightParen → Phrase [] (t :: (ts ++ [u])) e
  | operand {level : Level} {ls : List Level} {ts : List Token} {e : Expr} :
      Phrase ls ts e → Phrase (level :: ls) ts e
  | binary {level : Level} {ls : List Level} {ts us : List Token} {t : Token} {op : BinaryOp}
      {l r : Expr} : Phrase (level :: ls) ts l → level.op? t.lexeme = some op → Phrase ls us r →
      Phrase (level :: ls) (ts ++ t :: us) (.binary op l r)

def Stops (ls : List Level) (rest : List Token) : Prop :=
  ∀ t ∈ rest.head?, ∀ level ∈ ls, level.op? t.lexeme = none

variable {operand : Reader Expr} {level : Level} {ls : List Level} {ts used rest : List Token}
  {e : Expr} {n : Nat}

theorem Phrase.ne_nil (h : Phrase ls ts e) : ts ≠ [] := by
  induction h with
  | token _ | signed _ _ _ | parenthesized _ _ _ _ => simp
  | operand _ ih => exact ih
  | binary _ _ _ _ _ => simp

def Reads (reader : Reader Expr) (ls : List Level) : Prop :=
  ∀ ts e rest, reader ts = .ok (e, rest) → ∃ used, ts = used ++ rest ∧ Phrase ls used e

theorem Reads.length_lt {reader : Reader Expr} (h : Reads reader ls)
    (hr : reader ts = .ok (e, rest)) : rest.length < ts.length := by
  obtain ⟨used, rfl, hused⟩ := h ts e rest hr
  have := List.length_pos_of_ne_nil hused.ne_nil
  rw [List.length_append]
  omega

theorem readChain_reads (h : Reads operand ls) (n : Nat) :
    ∀ {left : Expr} {used ts : List Token} {e : Expr} {rest : List Token},
      Phrase (level :: ls) used left → readChain level operand n left ts = .ok (e, rest) →
      ∃ more, ts = more ++ rest ∧ Phrase (level :: ls) (used ++ more) e := by
  induction n with
  | zero =>
      intro left used ts e rest hleft hr
      simp only [readChain] at hr
      cases hr
      exact ⟨[], rfl, by simpa using hleft⟩
  | succ n ih =>
      intro left used ts e rest hleft hr
      cases ts with
      | nil =>
          simp only [readChain] at hr
          cases hr
          exact ⟨[], rfl, by simpa using hleft⟩
      | cons t ts =>
          simp only [readChain] at hr
          cases hop : level.op? t.lexeme with
          | none =>
              rw [hop] at hr
              cases hr
              exact ⟨[], rfl, by simpa using hleft⟩
          | some op =>
              rw [hop] at hr
              obtain ⟨⟨right, mid⟩, hright, hchain⟩ := bind_eq_ok.mp hr
              obtain ⟨us, rfl, hus⟩ := h _ _ _ hright
              obtain ⟨more, rfl, hmore⟩ := ih (.binary hleft hop hus) hchain
              exact ⟨t :: us ++ more, by simp, by simpa using hmore⟩

theorem readLevel_reads (h : Reads operand ls) : Reads (readLevel level operand) (level :: ls) := by
  intro ts e rest hread
  obtain ⟨⟨left, mid⟩, hleft, hchain⟩ := bind_eq_ok.mp hread
  obtain ⟨used, rfl, hused⟩ := h _ _ _ hleft
  obtain ⟨more, rfl, hmore⟩ := readChain_reads h _ (.operand hused) hchain
  exact ⟨used ++ more, by simp, hmore⟩

theorem foldr_readLevel_reads (h : Reads operand []) (ls : List Level) :
    Reads (ls.foldr readLevel operand) ls := by
  induction ls with
  | nil => exact h
  | cons level ls ih => exact readLevel_reads ih

theorem readOperand_cases (h : readOperand (n + 1) ts = .ok (e, rest)) :
    ∃ t more, ts = t :: more ∧
      ((∃ op inner, prefixOp? t.lexeme = some op ∧ readOperand n more = .ok (inner, rest) ∧
          e = prefixed op inner) ∨
        (∃ close, t.lexeme = .punct .leftParen ∧ close.lexeme = .punct .rightParen ∧
          readLevels (readOperand n) more = .ok (e, close :: rest)) ∨
        (ofLexeme? t.lexeme = some e ∧ rest = more)) := by
  cases ts with
  | nil =>
      simp only [readOperand] at h
      cases h
  | cons t more =>
      simp only [readOperand] at h
      refine ⟨t, more, rfl, ?_⟩
      split at h
      · next op hop =>
          obtain ⟨⟨inner, rest'⟩, hinner, h⟩ := bind_eq_ok.mp h
          cases h
          exact Or.inl ⟨op, inner, hop, hinner, rfl⟩
      · split at h
        · next hparen =>
            obtain ⟨⟨inner, mid⟩, hinner, h⟩ := bind_eq_ok.mp h
            obtain ⟨rest', hclose, h⟩ := bind_eq_ok.mp h
            cases h
            cases mid with
            | nil => cases hclose
            | cons close mid =>
                simp only [closeParen] at hclose
                split at hclose
                · next hright =>
                    cases hclose
                    exact Or.inr (Or.inl ⟨close, hparen, hright, hinner⟩)
                · cases hclose
        · split at h
          · next e' he =>
              cases h
              exact Or.inr (Or.inr ⟨he, rfl⟩)
          · cases h

theorem readOperand_reads (n : Nat) : Reads (readOperand n) [] := by
  induction n with
  | zero =>
      intro ts e rest h
      cases h
  | succ n ih =>
      intro ts e rest h
      obtain ⟨t, more, rfl, hcases⟩ := readOperand_cases h
      rcases hcases with ⟨op, inner, hop, hinner, rfl⟩ | ⟨close, hparen, hclose, hinner⟩ | ⟨he, rfl⟩
      · obtain ⟨used, rfl, hused⟩ := ih _ _ _ hinner
        exact ⟨t :: used, rfl, .signed hop hused⟩
      · obtain ⟨used, rfl, hused⟩ := foldr_readLevel_reads ih levels _ _ _ hinner
        exact ⟨t :: (used ++ [close]), by simp, .parenthesized hparen hused hclose⟩
      · exact ⟨[t], rfl, .token he⟩

theorem read_reads : Reads read levels :=
  fun ts => foldr_readLevel_reads (readOperand_reads ts.length) levels ts

theorem stops_cons : Stops (level :: ls) rest ↔
    (∀ t ∈ rest.head?, level.op? t.lexeme = none) ∧ Stops ls rest := by
  simp only [Stops, List.forall_mem_cons]
  exact ⟨fun h => ⟨fun t ht => (h t ht).1, fun t ht => (h t ht).2⟩,
    fun h t ht => ⟨h.1 t ht, h.2 t ht⟩⟩

theorem readChain_stops (h : Reads operand ls)
    (hstops : ∀ ts e rest, operand ts = .ok (e, rest) → Stops ls rest) :
    ∀ {n : Nat} {left : Expr} {ts : List Token} {e : Expr} {rest : List Token}, ts.length ≤ n →
      Stops ls ts → readChain level operand n left ts = .ok (e, rest) → Stops (level :: ls) rest := by
  intro n
  induction n with
  | zero =>
      intro left ts e rest hn _ hr
      cases List.length_eq_zero_iff.mp (Nat.le_zero.mp hn)
      simp only [readChain] at hr
      cases hr
      simp [Stops]
  | succ n ih =>
      intro left ts e rest hn hts hr
      cases ts with
      | nil =>
          simp only [readChain] at hr
          cases hr
          simp [Stops]
      | cons t ts =>
          simp only [readChain] at hr
          cases hop : level.op? t.lexeme with
          | none =>
              rw [hop] at hr
              cases hr
              exact stops_cons.mpr ⟨by simpa using hop, hts⟩
          | some op =>
              rw [hop] at hr
              obtain ⟨⟨right, mid⟩, hright, hchain⟩ := bind_eq_ok.mp hr
              have hlt := h.length_lt hright
              rw [List.length_cons] at hn
              exact ih (by omega) (hstops _ _ _ hright) hchain

theorem foldr_readLevel_stops (h : Reads operand []) (ls : List Level) : ∀ ts e rest,
    ls.foldr readLevel operand ts = .ok (e, rest) → Stops ls rest := by
  induction ls with
  | nil => simp [Stops]
  | cons level ls ih =>
      intro ts e rest hr
      obtain ⟨⟨left, mid⟩, hleft, hchain⟩ := bind_eq_ok.mp hr
      exact readChain_stops (foldr_readLevel_reads h ls) ih le_rfl (ih _ _ _ hleft) hchain

theorem readChain_of_stops (left : Expr) (h : ∀ t ∈ rest.head?, level.op? t.lexeme = none) :
    readChain level operand n left rest = .ok (left, rest) := by
  cases n with
  | zero => rfl
  | succ n =>
      cases rest with
      | nil => rfl
      | cons t rest => simp [readChain, h t rfl]

theorem readChain_fuel (h : Reads operand ls) : ∀ {n m : Nat} {left : Expr} {ts : List Token},
    ts.length ≤ n → ts.length ≤ m →
    readChain level operand n left ts = readChain level operand m left ts := by
  intro n
  induction n with
  | zero =>
      intro m left ts hn _
      cases List.length_eq_zero_iff.mp (Nat.le_zero.mp hn)
      rw [readChain_of_stops left (by simp), readChain_of_stops left (by simp)]
  | succ n ih =>
      intro m left ts hn hm
      cases ts with
      | nil => rw [readChain_of_stops left (by simp), readChain_of_stops left (by simp)]
      | cons t ts =>
          cases m with
          | zero => simp at hm
          | succ m =>
              simp only [readChain]
              cases hop : level.op? t.lexeme with
              | none => rfl
              | some op =>
                  cases hright : operand ts with
                  | error fault => rfl
                  | ok read =>
                      have hlt := h.length_lt hright
                      simp only [List.length_cons] at hn hm
                      exact ih (by omega) (by omega)

def Apart (level level' : Level) : Prop :=
  ∀ p, (level p).isSome → level' p = none

theorem levels_apart : levels.Pairwise Apart := by
  simp only [levels, List.pairwise_cons, List.mem_cons, List.not_mem_nil, or_false,
    forall_eq_or_imp, forall_eq, Apart]
  refine ⟨⟨?_, ?_, ?_, ?_, ?_⟩, ⟨?_, ?_, ?_, ?_⟩, ⟨?_, ?_, ?_⟩, ⟨?_, ?_⟩, ?_, by simp, .nil⟩
  all_goals
    intro p
    cases p <;> decide

theorem Apart.op? {level level' : Level} (h : Apart level level') {l : Lexeme} {op : BinaryOp}
    (hop : level.op? l = some op) : level'.op? l = none := by
  cases l with
  | punct p => exact h p (by simpa [Level.op?] using Option.isSome_of_eq_some hop)
  | _ => rfl

def ReadsBack (n : Nat) (e : Expr) (ts : List Token) : List Level → Prop
  | [] => ∀ rest, readOperand n (ts ++ rest) = .ok (e, rest)
  | level :: ls => ∀ rest, Stops ls rest →
      readLevel level (ls.foldr readLevel (readOperand n)) (ts ++ rest) =
        readChain level (ls.foldr readLevel (readOperand n)) rest.length e rest

theorem ReadsBack.eq_ok (h : ReadsBack n e ts ls) (hstops : Stops ls rest) :
    ls.foldr readLevel (readOperand n) (ts ++ rest) = .ok (e, rest) := by
  cases ls with
  | nil => exact h rest
  | cons level ls =>
      obtain ⟨hhead, hrest⟩ := stops_cons.mp hstops
      exact (h rest hrest).trans (readChain_of_stops e hhead)

theorem prefixOp?_of_ofLexeme? {l : Lexeme} (h : ofLexeme? l = some e) :
    prefixOp? l = none ∧ l ≠ .punct .leftParen := by
  cases l with
  | punct p => cases p <;> simp_all [ofLexeme?, prefixOp?]
  | _ => simp [prefixOp?]

theorem levels_closing (h : level ∈ levels) :
    level .rightParen = none ∧ level .comma = none := by
  simp only [levels, List.mem_cons, List.not_mem_nil, or_false] at h
  rcases h with rfl | rfl | rfl | rfl | rfl | rfl <;> exact ⟨rfl, rfl⟩

theorem stops_of_closing {u : Token} (h : u.lexeme = .punct .rightParen ∨ u.lexeme = .punct .comma) :
    Stops levels (u :: rest) := by
  intro t ht level hlevel
  cases ht
  rcases h with h | h
  · rw [h]
    exact (levels_closing hlevel).1
  · rw [h]
    exact (levels_closing hlevel).2

theorem Phrase.readsBack (h : Phrase ls ts e) : ls.Pairwise Apart →
    ∀ {n : Nat}, ts.length ≤ n → ReadsBack n e ts ls := by
  induction h with
  | @token t e he =>
      intro _ n hn rest
      obtain ⟨k, rfl⟩ : ∃ k, n = k + 1 := ⟨n - 1, by simp at hn; omega⟩
      obtain ⟨hsign, hparen⟩ := prefixOp?_of_ofLexeme? he
      simp [readOperand, hsign, hparen, he]
  | @signed t op ts e hop _ ih =>
      intro _ n hn rest
      rw [List.length_cons] at hn
      obtain ⟨k, rfl⟩ : ∃ k, n = k + 1 := ⟨n - 1, by omega⟩
      have hinner := ih .nil (n := k) (by omega) rest
      simp [readOperand, hop, hinner, bind, Except.bind, pure, Except.pure]
  | @parenthesized t u ts e hparen _ hclose ih =>
      intro _ n hn rest
      simp only [List.length_cons, List.length_append, List.length_nil] at hn
      obtain ⟨k, rfl⟩ : ∃ k, n = k + 1 := ⟨n - 1, by omega⟩
      have hsign : prefixOp? (.punct .leftParen) = none := rfl
      have hinner : readLevels (readOperand k) (ts ++ u :: rest) = .ok (e, u :: rest) :=
        (ih levels_apart (n := k) (by omega)).eq_ok (stops_of_closing (.inl hclose))
      simp [readOperand, hsign, hparen, hinner, closeParen, hclose, bind, Except.bind, pure,
        Except.pure]
  | @operand level ls ts e _ ih =>
      intro hapart n hn rest hstops
      have hoperand := (ih (List.pairwise_cons.mp hapart).2 hn).eq_ok hstops
      simp [readLevel, hoperand, bind, Except.bind]
  | @binary level ls ts us t op l r _ hop _ ihl ihr =>
      intro hapart n hn rest hstops
      simp only [List.length_append, List.length_cons] at hn
      obtain ⟨hlevel, hls⟩ := List.pairwise_cons.mp hapart
      -- The operator belongs to this level only, so it ends the left operand.
      have hhere : Stops ls (t :: (us ++ rest)) := by
        intro u hu level' hlevel'
        cases hu
        exact (hlevel level' hlevel').op? hop
      have hleft := ihl hapart (n := n) (by omega) (t :: (us ++ rest)) hhere
      have hright := (ihr hls (n := n) (by omega)).eq_ok hstops
      rw [List.append_assoc, List.cons_append, hleft]
      simp only [List.length_cons, readChain, hop, hright, bind, Except.bind]
      exact readChain_fuel (foldr_readLevel_reads (readOperand_reads n) ls) (by simp) le_rfl

theorem read_eq_ok : read ts = .ok (e, rest) ↔
    ∃ used, ts = used ++ rest ∧ Phrase levels used e ∧ Stops levels rest := by
  constructor
  · intro h
    obtain ⟨used, hts, hused⟩ := read_reads ts e rest h
    exact ⟨used, hts, hused, foldr_readLevel_stops (readOperand_reads _) levels ts e rest h⟩
  · rintro ⟨used, rfl, hused, hstops⟩
    exact (hused.readsBack levels_apart (by simp)).eq_ok hstops

def Bare (used : List Token) (e : Expr) : Prop :=
  Phrase levels used e ∧ ∀ t ∈ used.head?, t.lexeme ≠ .punct .leftParen

theorem readBare_eq_ok : readBare ts = .ok (e, rest) ↔
    ∃ used, ts = used ++ rest ∧ Bare used e ∧ Stops levels rest := by
  have hhead : ∀ {used : List Token}, Phrase levels used e →
      (used ++ rest).head? = used.head? := by
    intro used hused
    rw [List.head?_append, Option.or_of_isSome (by simpa using hused.ne_nil)]
  constructor
  · intro h
    have hread : read ts = .ok (e, rest) ∧ ∀ t ∈ ts.head?, t.lexeme ≠ .punct .leftParen := by
      unfold readBare at h
      split at h
      · split at h
        · cases h
        · next hne => exact ⟨h, by simpa using hne⟩
      · exact ⟨h, by simp⟩
    obtain ⟨used, rfl, hused, hstops⟩ := read_eq_ok.mp hread.1
    exact ⟨used, rfl, ⟨hused, by simpa only [hhead hused] using hread.2⟩, hstops⟩
  · rintro ⟨used, rfl, ⟨hused, hbare⟩, hstops⟩
    have hread := read_eq_ok.mpr ⟨used, rfl, hused, hstops⟩
    rw [← hhead hused] at hbare
    unfold readBare
    split
    · next t ts' heq =>
        rw [heq] at hbare
        rw [if_neg (hbare t rfl)]
        exact hread
    · exact hread

def opens (l : Lexeme) : Bool :=
  (prefixOp? l).isSome || l == .punct .leftParen || (ofLexeme? l).isSome

theorem Phrase.opens (h : Phrase ls ts e) : ∃ t more, ts = t :: more ∧ opens t.lexeme = true := by
  induction h with
  | @token t e he => exact ⟨t, [], rfl, by simp [Expr.opens, he]⟩
  | @signed t op ts e hop _ _ => exact ⟨t, ts, rfl, by simp [Expr.opens, hop]⟩
  | @parenthesized t u ts e hparen _ _ _ => exact ⟨t, ts ++ [u], rfl, by simp [Expr.opens, hparen]⟩
  | operand _ ih => exact ih
  | @binary level ls ts us t op l r _ _ _ ih _ =>
      obtain ⟨first, more, rfl, hopens⟩ := ih
      exact ⟨first, more ++ t :: us, rfl, hopens⟩

theorem readBare_opens {r : Expr × List Token} (h : readBare ts = .ok r) :
    ∃ t rest, ts = t :: rest ∧ opens t.lexeme = true ∧ t.lexeme ≠ .punct .leftParen := by
  obtain ⟨used, rfl, ⟨hused, hbare⟩, -⟩ := readBare_eq_ok.mp h
  obtain ⟨t, more, rfl, hopens⟩ := hused.opens
  exact ⟨t, more ++ r.2, rfl, hopens, hbare t rfl⟩

def Foreign (l : Lexeme) : Prop :=
  opens l = false ∧ l ≠ .punct .rightParen ∧ ∀ level ∈ levels, level.op? l = none

theorem Phrase.not_foreign (h : Phrase ls ts e) : (∀ level ∈ ls, level ∈ levels) →
    ∀ t ∈ ts, ¬Foreign t.lexeme := by
  induction h with
  | @token t e he =>
      intro _ u hu hforeign
      cases List.mem_singleton.mp hu
      simp [Foreign, Expr.opens, he] at hforeign
  | @signed t op ts e hop _ ih =>
      intro hls u hu hforeign
      rcases List.mem_cons.mp hu with rfl | hu
      · simp [Foreign, Expr.opens, hop] at hforeign
      · exact ih hls u hu hforeign
  | @parenthesized t u ts e hparen _ hclose ih =>
      intro _ v hv hforeign
      simp only [List.mem_cons, List.mem_append, List.not_mem_nil, or_false] at hv
      rcases hv with rfl | hv | rfl
      · simp [Foreign, Expr.opens, hparen] at hforeign
      · exact ih (fun level hlevel => hlevel) v hv hforeign
      · exact hforeign.2.1 hclose
  | operand _ ih => exact fun hls => ih fun level hlevel => hls level (List.mem_cons_of_mem _ hlevel)
  | @binary level ls ts us t op l r _ hop _ ihl ihr =>
      intro hls u hu hforeign
      rcases List.mem_append.mp hu with hu | hu
      · exact ihl hls u hu hforeign
      · rcases List.mem_cons.mp hu with rfl | hu
        · rw [hforeign.2.2 level (hls level (List.mem_cons_self ..))] at hop
          cases hop
        · exact ihr (fun l hl => hls l (List.mem_cons_of_mem _ hl)) u hu hforeign

theorem Bare.not_foreign (h : Bare used e) : ∀ t ∈ used, ¬Foreign t.lexeme :=
  h.1.not_foreign fun _ hlevel => hlevel

theorem readBare_stopsAtComma (h : readBare ts = .ok (e, rest)) :
    ∃ used, ts = used ++ rest ∧ ∀ t ∈ used, t.lexeme ≠ .punct .comma := by
  obtain ⟨used, hts, hused, -⟩ := readBare_eq_ok.mp h
  refine ⟨used, hts, fun t ht hcomma => hused.not_foreign t ht ?_⟩
  rw [hcomma]
  exact ⟨rfl, by simp, fun level hlevel => (levels_closing hlevel).2⟩

end Expr

end Z80
