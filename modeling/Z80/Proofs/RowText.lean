import Mathlib
import Z80.Listing
import Z80.Proofs.Numerals

namespace Z80

namespace Numeral

variable {c : Char} {cs : List Char} {n d : Nat}

theorem positional_concat (radix : Nat) (cs : List Char) (c : Char) :
    positional radix (cs ++ [c]) = positional radix cs * radix + rank c := by
  simp [positional, Nat.ofDigits_cons, Nat.add_comm, Nat.mul_comm]

theorem rank_upper_digitChar (h : d < 16) : rank d.digitChar.toUpper = d := by
  have hall : ∀ d : Fin 16, rank (Nat.digitChar d).toUpper = d := by decide +kernel
  exact hall ⟨d, h⟩

theorem upper_toDigits (n : Nat) :
    (∀ c ∈ (Nat.toDigits 16 n).map Char.toUpper, rank c < 16) ∧
      positional 16 ((Nat.toDigits 16 n).map Char.toUpper) = n := by
  induction n using Nat.strongRecOn with
  | ind n ih =>
      rcases Nat.lt_or_ge n 16 with hlt | hge
      · rw [Nat.toDigits_of_lt_base hlt]
        simp [positional, rank_upper_digitChar hlt, hlt]
      · obtain ⟨hdigits, hvalue⟩ := ih (n / 16) (by omega)
        have hlast : rank (n % 16).digitChar.toUpper = n % 16 := rank_upper_digitChar (by omega)
        rw [Nat.toDigits_of_base_le (by decide) hge, List.map_append, List.map_singleton]
        constructor
        · intro c hc
          rcases List.mem_append.mp hc with hc | hc
          · exact hdigits c hc
          · rw [List.mem_singleton.mp hc, hlast]
            omega
        · rw [positional_concat, hvalue, hlast]
          omega

theorem positional_zeros (radix k : Nat) (cs : List Char) :
    positional radix (List.replicate k '0' ++ cs) = positional radix cs := by
  induction k with
  | zero => rfl
  | succ k ih =>
      have hzero : rank '0' = 0 := rfl
      rw [List.replicate_succ, List.cons_append, positional_cons, ih, hzero, Nat.zero_mul,
        Nat.zero_add]

theorem value?_hexUpper (width : Nat) (hwidth : 0 < width) (hn : n < 16 ^ width) :
    (Text.hexUpper width n).toList.length = width ∧
      value? 16 (Text.hexUpper width n).toList = some n := by
  have hlength : ((Nat.toDigits 16 n).map Char.toUpper).length ≤ width := by
    rw [List.length_map]
    exact (Nat.length_toDigits_le_iff (by decide) hwidth).mpr hn
  obtain ⟨hdigits, hvalue⟩ := upper_toDigits n
  have hnonempty : (Nat.toDigits 16 n).map Char.toUpper ≠ [] := by simp [Nat.toDigits_ne_nil]
  simp only [Text.hexUpper, Text.padLeft, String.toList_append, String.toList_ofList,
    String.length_ofList]
  refine ⟨by rw [List.length_append, List.length_replicate]; omega, ?_⟩
  refine (value?_eq_some le_rfl).mpr ⟨⟨by simp [hnonempty], ?_⟩, ?_⟩
  · intro c hc
    rcases List.mem_append.mp hc with hc | hc
    · rw [(List.mem_replicate.mp hc).2]
      decide
    · exact hdigits c hc
  · rw [positional_zeros, hvalue]

theorem value?_toDigits (n : Nat) : value? 10 (Nat.toDigits 10 n) = some n := by
  have hdigits : ∀ c ∈ Nat.toDigits 10 n, c.isDigit = true := fun c => isDigit_of_mem_toDigits
  simp [value?, Nat.toDigits_ne_nil, valueFrom_digits hdigits, Nat.ofDigitChars_ten_toDigits]

end Numeral

namespace Listing

open Text (Palette)

structure Row where
  address : UInt16
  bytes : List UInt8
  source? : Option (Nat × String)
deriving DecidableEq

def readBytes (column : List Char) : List UInt8 :=
  [0, 3, 6, 9].filterMap fun place =>
    (Numeral.value? 16 ((column.drop place).take 2)).map UInt8.ofNat

def readSource? : List Char → Option (Nat × String)
  | [] => none
  | _ :: cs =>
      let number := cs.dropWhile (· == ' ')
      (Numeral.value? 10 (number.takeWhile Char.isDigit)).map fun n =>
        (n, String.ofList ((number.dropWhile Char.isDigit).drop 2))

def Row.read? (palette : Palette) (text : String) : Option Row :=
  let cs := text.toList
  let start := 1 + palette.cyan.opening.length
  let stop := start + 4 + palette.cyan.closing.length
  if cs.head? = some '[' then
    (Numeral.value? 16 ((cs.drop start).take 4)).map fun address =>
      ⟨UInt16.ofNat address, readBytes ((cs.drop (stop + 2)).take 11),
        readSource? (cs.drop (stop + 15))⟩
  else none

section Columns

variable {palette : Palette} {bytes : List UInt8} {address : UInt16} {behind : List Char}

theorem hexUpper_byte (b : UInt8) :
    ∃ x y, (Text.hexUpper 2 b.toNat).toList = [x, y] ∧
      Numeral.value? 16 [x, y] = some b.toNat := by
  obtain ⟨hlength, hvalue⟩ := Numeral.value?_hexUpper 2 (by decide) b.toNat_lt
  obtain ⟨x, y, hxy⟩ := List.length_eq_two.mp hlength
  exact ⟨x, y, hxy, hxy ▸ hvalue⟩

theorem readBytes_hexBytes (h : bytes.length ≤ 4) :
    (hexBytes bytes).toList.length ≤ 11 ∧
      ∀ k, readBytes ((hexBytes bytes).toList ++ List.replicate k ' ') = bytes := by
  have hblank : ∀ k, Numeral.value? 16 (List.replicate k ' ') = none := by
    intro k
    cases k <;> rfl
  choose x y hhex hvalue using hexUpper_byte
  match bytes with
  | [] | [a] | [a, b] | [a, b, c] | [a, b, c, d] =>
      simp [hexBytes, readBytes, hhex, hvalue, hblank]

theorem read?_eq {text : String} {digits column behind : List Char}
    (htext : text.toList = '[' :: palette.cyan.opening.toList ++ digits ++
      (palette.cyan.closing.toList ++ [']', ' ']) ++ column ++ [' ', '|'] ++ behind)
    (hdigits : digits.length = 4) (hcolumn : column.length = 11) :
    Row.read? palette text = (Numeral.value? 16 digits).map fun address =>
      ⟨UInt16.ofNat address, readBytes column, readSource? behind⟩ := by
  have hstart : ('[' :: palette.cyan.opening.toList).length = 1 + palette.cyan.opening.length := by
    rw [List.length_cons, String.length_toList, Nat.add_comm]
  have hstop : ('[' :: palette.cyan.opening.toList ++ digits ++
      (palette.cyan.closing.toList ++ [']', ' '])).length =
        1 + palette.cyan.opening.length + 4 + palette.cyan.closing.length + 2 := by
    simp only [List.length_append, hstart, hdigits, String.length_toList, List.length_cons,
      List.length_nil]
    omega
  have haddress : (text.toList.drop (1 + palette.cyan.opening.length)).take 4 = digits := by
    rw [htext, List.append_assoc, List.append_assoc, List.append_assoc, List.append_assoc,
      List.drop_left' hstart, List.take_left' hdigits]
  have hbytes : (text.toList.drop (1 + palette.cyan.opening.length + 4 +
      palette.cyan.closing.length + 2)).take 11 = column := by
    rw [htext, List.append_assoc, List.append_assoc, List.drop_left' hstop,
      List.take_left' hcolumn]
  have hsource : text.toList.drop (1 + palette.cyan.opening.length + 4 +
      palette.cyan.closing.length + 15) = behind := by
    rw [htext, List.drop_left' (by simp only [List.length_append, hstop, hcolumn]; rfl)]
  have hhead : text.toList.head? = some '[' := by
    rw [htext]
    simp only [List.append_assoc, List.cons_append, List.head?_cons]
  rw [Row.read?]
  simp only [hhead, if_true, haddress, hbytes, hsource]

theorem read?_columns (h : bytes.length ≤ 4) (address : UInt16) (behind : String) :
    Row.read? palette (columns palette address bytes ++ behind) =
      some ⟨address, bytes, readSource? behind.toList⟩ := by
  obtain ⟨hwidth, haddress⟩ := Numeral.value?_hexUpper 4 (by decide) address.toNat_lt
  obtain ⟨hlength, hbytes⟩ := readBytes_hexBytes h
  have hcolumn : (Text.padRight 11 (hexBytes bytes)).toList = (hexBytes bytes).toList ++
      List.replicate (11 - (hexBytes bytes).toList.length) ' ' := by
    rw [Text.padRight, String.toList_append, String.toList_ofList, String.length_toList]
  have hpadded : (Text.padRight 11 (hexBytes bytes)).toList.length = 11 := by
    rw [hcolumn, List.length_append, List.length_replicate]
    omega
  have htext : (columns palette address bytes ++ behind).toList =
      '[' :: palette.cyan.opening.toList ++ (Text.hexUpper 4 address.toNat).toList ++
        (palette.cyan.closing.toList ++ [']', ' ']) ++
        (Text.padRight 11 (hexBytes bytes)).toList ++ [' ', '|'] ++ behind.toList := by
    simp [columns, Text.Ink.around]
  rw [read?_eq htext hwidth hpadded, haddress, Option.map_some, UInt16.ofNat_toNat, hcolumn, hbytes]

theorem readSource?_numbered (line : Nat) (source : String) :
    readSource? (" " ++ Text.padLeft 4 ' ' (toString line) ++ ": " ++ source).toList =
      some (line, source) := by
  have hdigits : ∀ c ∈ Nat.toDigits 10 line, c.isDigit = true :=
    fun c => Numeral.isDigit_of_mem_toDigits
  have hlist : (" " ++ Text.padLeft 4 ' ' (toString line) ++ ": " ++ source).toList =
      ' ' :: (List.replicate (4 - (toString line).length) ' ' ++ (Nat.toDigits 10 line ++
        (':' :: ' ' :: source.toList))) := by
    simp [Text.padLeft]
  have hblanks : (List.replicate (4 - (toString line).length) ' ' ++ (Nat.toDigits 10 line ++
      (':' :: ' ' :: source.toList))).dropWhile (· == ' ') =
        Nat.toDigits 10 line ++ (':' :: ' ' :: source.toList) := by
    obtain ⟨c, cs, hcs⟩ := List.exists_cons_of_ne_nil
      (Nat.toDigits_ne_nil : Nat.toDigits 10 line ≠ [])
    have hc : (c == ' ') = false := by
      rw [beq_eq_false_iff_ne]
      rintro rfl
      exact absurd (hdigits ' ' (by simp [hcs])) (by decide)
    rw [List.dropWhile_append_of_pos (by simp), hcs, List.cons_append, List.dropWhile_cons, hc]
    rfl
  have hrun : (Nat.toDigits 10 line ++ (':' :: ' ' :: source.toList)).takeWhile Char.isDigit =
      Nat.toDigits 10 line :=
    takeWhile_append_stop hdigits (by simp)
  have hrest : (Nat.toDigits 10 line ++ (':' :: ' ' :: source.toList)).dropWhile Char.isDigit =
      ':' :: ' ' :: source.toList := by
    rw [List.dropWhile_append_of_pos hdigits]
    rfl
  rw [hlist, readSource?]
  simp only [hblanks, hrun, hrest, Numeral.value?_toDigits, Option.map_some]
  simp

theorem read?_lineRow (h : bytes.length ≤ 4) (address : UInt16) (line : Nat) (source : String) :
    Row.read? palette (lineRow palette address bytes line source) =
      some ⟨address, bytes, some (line, source)⟩ := by
  have hrow : lineRow palette address bytes line source = columns palette address bytes ++
      (" " ++ Text.padLeft 4 ' ' (toString line) ++ ": " ++ source) := by
    simp [lineRow, String.append_assoc]
  rw [hrow, read?_columns h, readSource?_numbered]

theorem read?_more (h : bytes.length ≤ 4) (address : UInt16) :
    Row.read? palette (columns palette address bytes) = some ⟨address, bytes, none⟩ := by
  have hread : Row.read? palette (columns palette address bytes ++ "") = _ :=
    read?_columns h address ""
  rwa [String.append_empty] at hread

theorem read?_eq_none {text : String} (h : text.toList.head? ≠ some '[') :
    Row.read? palette text = none :=
  if_neg h

theorem read?_header (name : String) : Row.read? palette (header name) = none := by
  refine read?_eq_none ?_
  simp [header, dashes, List.replicate_succ]

theorem read?_footer : Row.read? palette footer = none :=
  read?_eq_none (by simp [footer, dashes, List.replicate_succ])

end Columns

end Listing

end Z80
