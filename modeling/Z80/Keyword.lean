import Z80.Text

namespace Z80

inductive Keyword where
  | a | b | c | d | e | f | h | l | i | r
  | ixh | ixl | iyh | iyl
  | af | afShadow | bc | de | hl | sp | ix | iy
  | nz | z | nc | po | pe | p | m | nv | v
deriving DecidableEq

namespace Keyword

def all : List Keyword :=
  [a, b, c, d, e, f, h, l, i, r, ixh, ixl, iyh, iyl, af, afShadow, bc, de, hl, sp, ix, iy,
   nz, z, nc, po, pe, p, m, nv, v]

def name : Keyword → String
  | a => "a" | b => "b" | c => "c" | d => "d" | e => "e" | f => "f" | h => "h" | l => "l"
  | i => "i" | r => "r"
  | ixh => "ixh" | ixl => "ixl" | iyh => "iyh" | iyl => "iyl"
  | af => "af" | afShadow => "af'" | bc => "bc" | de => "de" | hl => "hl" | sp => "sp"
  | ix => "ix" | iy => "iy"
  | nz => "nz" | z => "z" | nc => "nc" | po => "po" | pe => "pe" | p => "p" | m => "m"
  | nv => "nv" | v => "v"

def ofName? (s : String) : Option Keyword :=
  all.find? fun k => k.name == Text.lower s

end Keyword

end Z80
