import Mathlib
import Z80.Proofs.TokenMaps

namespace Z80

section Remarking

variable (place : Nat) (bits : String)

def Lexeme.remarked : Lexeme → Lexeme
  | number _ value => number ("%" ++ bits) value
  | l => l

def Token.remarked (t : Token) : Token where
  lexeme := if t.column = place then t.lexeme.remarked bits else t.lexeme
  column := if place + 1 < t.column then t.column - 1 else t.column

def Statement.remarked : Statement → Statement
  | instruction mnemonic operands => instruction mnemonic (operands.map (Token.remarked place bits))
  | s => s

def Line.remarked (line : Line) : Line :=
  { line with statement := line.statement.map (Statement.remarked place bits) }

def TokenMap.remarking : TokenMap where
  name := id
  spelling := fun n s => if n = place then "%" ++ bits else s
  comment := id
  column := fun n => if place + 1 < n then n - 1 else n
  name_lower := fun _ => rfl
  column_eq_zero := by
    intro n
    split <;> omega

end Remarking

namespace TokenMap

variable {place : Nat} {bits : String}

theorem remarking_token : (remarking place bits).token = Token.remarked place bits := by
  funext ⟨l, column⟩
  cases l with
  | number s value =>
      simp only [token, lexeme, remarking, Token.remarked, Lexeme.remarked]
      split <;> rfl
  | punct _ | keyword _ | name _ | text _ | char _ | comment _ =>
      simp [token, lexeme, remarking, Token.remarked, Lexeme.remarked]

theorem remarking_statement (s : Statement) :
    (remarking place bits).statement s = s.remarked place bits := by
  have hexpr : Expr.rename id = id := funext Expr.rename_id
  have hrename : s.rename id = s := by
    have hline := Line.rename_id ⟨none, some s⟩
    simpa [Line.rename] using hline
  cases s with
  | instruction mnemonic operands => simp [statement, Statement.remarked, remarking_token]
  | segment name address => simp [statement, Statement.remarked, remarking, hexpr]
  | data _ _ | equ _ | org _ | align _ _ | fill _ _ | openLocal | closeLocal | target _ =>
      exact hrename

theorem remarking_line (line : Line) :
    (remarking place bits).line line = line.remarked place bits := by
  have hlabel : Label.rename (remarking place bits).name = id := rfl
  have hstatement : (remarking place bits).statement = Statement.remarked place bits :=
    funext remarking_statement
  simp [TokenMap.line, Line.remarked, hlabel, hstatement]

end TokenMap

theorem Line.ofTokens_remarked (place : Nat) (bits : String) (ts : List Token) :
    Corresponds (fun line line' => line' = line.remarked place bits) (ofTokens (dropComment ts))
      (ofTokens (dropComment (ts.map (Token.remarked place bits)))) := by
  have hlines := ofTokens_mapped (TokenMap.remarking place bits) (dropComment ts)
  rw [← dropComment_mapped, TokenMap.remarking_token] at hlines
  simpa only [TokenMap.remarking_line] using hlines

end Z80
