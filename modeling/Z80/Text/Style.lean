namespace Z80.Text

structure Ink where
  opening : String
  closing : String
deriving DecidableEq

def Ink.around (ink : Ink) (s : String) : String :=
  ink.opening ++ s ++ ink.closing

structure Palette where
  alarm : Ink
  underlined : Ink
  blue : Ink
  green : Ink
  yellow : Ink
  cyan : Ink
deriving DecidableEq

def sgr (code : Nat) : String :=
  "\x1b[" ++ toString code ++ "m"

def Palette.terminal : Palette where
  alarm := ⟨sgr 31 ++ sgr 1, sgr 39 ++ sgr 22⟩
  underlined := ⟨sgr 4, sgr 24⟩
  blue := ⟨sgr 34, sgr 39⟩
  green := ⟨sgr 32, sgr 39⟩
  yellow := ⟨sgr 33, sgr 39⟩
  cyan := ⟨sgr 36, sgr 39⟩

end Z80.Text
