import Mathlib
import Z80.Calendar

namespace Z80

def IsLeap (year : Nat) : Prop :=
  4 ∣ year ∧ (100 ∣ year → 400 ∣ year)

instance (year : Nat) : Decidable (IsLeap year) :=
  inferInstanceAs (Decidable (4 ∣ year ∧ (100 ∣ year → 400 ∣ year)))

def daysInMonth (year : Nat) : Nat → Nat
  | 2 => if IsLeap year then 29 else 28
  | 4 | 6 | 9 | 11 => 30
  | _ => 31

namespace Date

structure Valid (d : Date) : Prop where
  month : 1 ≤ d.month ∧ d.month ≤ 12
  day : 1 ≤ d.day ∧ d.day ≤ daysInMonth d.year d.month

def next (d : Date) : Date :=
  if d.day < daysInMonth d.year d.month then ⟨d.year, d.month, d.day + 1⟩
  else if d.month < 12 then ⟨d.year, d.month + 1, 1⟩
  else ⟨d.year + 1, 1, 1⟩

def within? (limit n : Nat) : Option Nat :=
  if n < limit then some n else none

def ofDays? (limit days : Nat) : Option Date := do
  let z ← within? limit (days + 719468)
  let era := z / 146097
  let dayOfEra := z % 146097
  let dropped ← Nat.psub dayOfEra (dayOfEra / 1460)
  let raised ← within? limit (dropped + dayOfEra / 36524)
  let whole ← Nat.psub raised (dayOfEra / 146096)
  let yearOfEra := whole / 365
  let fourths ← within? limit (365 * yearOfEra + yearOfEra / 4)
  let start ← Nat.psub fourths (yearOfEra / 100)
  let dayOfYear ← Nat.psub dayOfEra start
  let fifths ← within? limit (5 * dayOfYear + 2)
  let monthFromMarch := fifths / 153
  let monthDays ← within? limit (153 * monthFromMarch + 2)
  let dayOfMonth ← Nat.psub dayOfYear (monthDays / 5)
  let day ← within? limit (dayOfMonth + 1)
  let month ← (if monthFromMarch < 10 then within? limit (monthFromMarch + 3)
    else Nat.psub monthFromMarch 9)
  let year ← within? limit (era * 400 + yearOfEra + (if month ≤ 2 then 1 else 0))
  return ⟨year, month, day⟩

theorem within?_eq {limit n : Nat} (h : n < limit) : within? limit n = some n :=
  if_pos h

theorem within?_eq_some {limit n k : Nat} : within? limit n = some k ↔ n < limit ∧ n = k := by
  unfold within?
  split <;> simp [*]

end Date

def yearStart (y : Nat) : Nat :=
  365 * y + y / 4 - y / 100 + y / 400

def yearLength (y : Nat) : Nat :=
  if IsLeap (y + 1) then 366 else 365

def monthStart (m : Nat) : Nat :=
  (153 * m + 2) / 5

def monthLength (y m : Nat) : Nat :=
  if m < 11 then monthStart (m + 1) - monthStart m else yearLength y - monthStart m

theorem yearStart_succ (y : Nat) : yearStart (y + 1) = yearStart y + yearLength y := by
  have hfour : 100 ∣ y + 1 → 4 ∣ y + 1 := (by decide : 4 ∣ 100).trans
  have hhundred : 400 ∣ y + 1 → 100 ∣ y + 1 := (by decide : 100 ∣ 400).trans
  have hle : y / 100 ≤ y := Nat.div_le_self ..
  simp only [yearStart, yearLength, Nat.succ_div, IsLeap]
  by_cases h400 : 400 ∣ y + 1
  · simp only [h400, hhundred h400, hfour (hhundred h400), if_true, and_self, imp_self]
    omega
  by_cases h100 : 100 ∣ y + 1
  · simp only [h400, h100, hfour h100, if_true, if_false, imp_false, not_true, and_false]
    omega
  simp only [h400, h100, if_false, false_imp_iff, and_true]
  split_ifs <;> omega

theorem yearStart_mono : Monotone yearStart :=
  monotone_nat_of_le_succ fun y => by
    rw [yearStart_succ]
    exact Nat.le_add_right ..

theorem monthStart_mono : Monotone monthStart :=
  monotone_nat_of_le_succ fun m => by
    unfold monthStart
    omega

theorem le_yearStart (y : Nat) : y ≤ yearStart y := by
  have hle : y / 100 ≤ y := Nat.div_le_self ..
  unfold yearStart
  omega

theorem exists_between (start : Nat → Nat) {n k : Nat} (hzero : start 0 ≤ n) (hk : n < start k) :
    ∃ i < k, start i ≤ n ∧ n < start (i + 1) := by
  induction k with
  | zero => omega
  | succ k ih =>
      rcases Nat.lt_or_ge n (start k) with hlt | hge
      · obtain ⟨i, hi, hbetween⟩ := ih hlt
        exact ⟨i, Nat.lt_succ_of_lt hi, hbetween⟩
      · exact ⟨k, Nat.lt_succ_self k, hge, hk⟩

theorem eq_of_between {start : Nat → Nat} (hstart : Monotone start) {n i j : Nat}
    (hi : start i ≤ n ∧ n < start (i + 1)) (hj : start j ≤ n ∧ n < start (j + 1)) : i = j := by
  rcases lt_trichotomy i j with h | h | h
  · have : start (i + 1) ≤ start j := hstart h
    omega
  · exact h
  · have : start (j + 1) ≤ start i := hstart h
    omega

structure MarchDay (z y m d : Nat) : Prop where
  number : z = yearStart y + monthStart m + d
  month : m < 12
  day : d < monthLength y m

namespace MarchDay

variable {z y m d y' m' d' : Nat}

theorem monthStart_add (hm : m < 11) (y : Nat) :
    monthStart m + monthLength y m = monthStart (m + 1) := by
  have hle : monthStart m ≤ monthStart (m + 1) := monthStart_mono (Nat.le_succ m)
  rw [monthLength, if_pos hm]
  omega

theorem monthStart_add_last (y : Nat) : monthStart 11 + monthLength y 11 = yearLength y := by
  have hlast : monthStart 11 = 337 := rfl
  simp only [monthLength, yearLength, hlast]
  split_ifs <;> omega

theorem monthEnd_le (hm : m < 12) (y : Nat) :
    monthStart m + monthLength y m ≤ yearLength y ∧
      monthStart m + monthLength y m ≤ monthStart (m + 1) := by
  have hyear := monthStart_add_last y
  rcases Nat.lt_or_ge m 11 with hlt | hge
  · have hnext := monthStart_add hlt y
    have hlast : monthStart (m + 1) ≤ monthStart 11 := monthStart_mono hlt
    omega
  · obtain rfl : m = 11 := by omega
    have hlength : yearLength y ≤ 366 := by
      unfold yearLength
      split <;> omega
    have hend : monthStart (11 + 1) = 367 := rfl
    omega

theorem inYear (h : MarchDay z y m d) : yearStart y ≤ z ∧ z < yearStart (y + 1) := by
  obtain ⟨hz, hm, hd⟩ := h
  have hend := (monthEnd_le hm y).1
  rw [yearStart_succ]
  omega

theorem inMonth (h : MarchDay z y m d) :
    monthStart m ≤ z - yearStart y ∧ z - yearStart y < monthStart (m + 1) := by
  obtain ⟨hz, hm, hd⟩ := h
  have hend := (monthEnd_le hm y).2
  omega

theorem exists_marchDay (z : Nat) : ∃ y m d, MarchDay z y m d := by
  obtain ⟨y, -, hyear⟩ := exists_between yearStart (Nat.zero_le z)
    (le_yearStart (z + 1))
  rw [yearStart_succ, ← monthStart_add_last] at hyear
  rcases Nat.lt_or_ge (z - yearStart y) (monthStart 11) with hlt | hge
  · obtain ⟨m, hm, hmonth⟩ := exists_between monthStart (Nat.zero_le _) hlt
    have hlength := monthStart_add hm y
    exact ⟨y, m, z - yearStart y - monthStart m, by omega, by omega, by omega⟩
  · exact ⟨y, 11, z - yearStart y - monthStart 11, by omega, by omega, by omega⟩

theorem unique (h : MarchDay z y m d) (h' : MarchDay z y' m' d') : y = y' ∧ m = m' ∧ d = d' := by
  obtain rfl := eq_of_between yearStart_mono h.inYear h'.inYear
  obtain rfl := eq_of_between monthStart_mono h.inMonth h'.inMonth
  have hnumber := h.number.symm.trans h'.number
  exact ⟨rfl, rfl, Nat.add_left_cancel hnumber⟩

end MarchDay

def Date.ofMarch (y m d : Nat) : Date :=
  if m < 10 then ⟨y, m + 3, d + 1⟩ else ⟨y + 1, m - 9, d + 1⟩

namespace MarchDay

variable {z y m d : Nat}

theorem daysInMonth_ofMarch (hm : m < 12) (y d : Nat) :
    daysInMonth (Date.ofMarch y m d).year (Date.ofMarch y m d).month = monthLength y m := by
  have hlast : yearLength y - monthStart 11 = if IsLeap (y + 1) then 29 else 28 := by
    unfold yearLength
    split <;> rfl
  interval_cases m
  case «11» => exact hlast.symm
  all_goals rfl

theorem valid (h : MarchDay z y m d) : (Date.ofMarch y m d).Valid := by
  have hlast := daysInMonth_ofMarch h.month y d
  have hday : (Date.ofMarch y m d).day = d + 1 := by
    unfold Date.ofMarch
    split <;> rfl
  have hmonth : 1 ≤ (Date.ofMarch y m d).month ∧ (Date.ofMarch y m d).month ≤ 12 := by
    have := h.month
    unfold Date.ofMarch
    split <;> dsimp only <;> omega
  refine ⟨hmonth, ?_⟩
  rw [hlast, hday]
  exact ⟨Nat.succ_pos d, h.day⟩

theorem monthLength_pos (hm : m < 12) (y : Nat) : 0 < monthLength y m := by
  have hyear : 365 ≤ yearLength y := by
    unfold yearLength
    split <;> omega
  unfold monthLength monthStart
  split <;> omega

theorem succ (h : MarchDay z y m d) :
    (d + 1 < monthLength y m ∧ MarchDay (z + 1) y m (d + 1)) ∨
      (d + 1 = monthLength y m ∧ m < 11 ∧ MarchDay (z + 1) y (m + 1) 0) ∨
      (d + 1 = monthLength y m ∧ m = 11 ∧ MarchDay (z + 1) (y + 1) 0 0) := by
  obtain ⟨hz, hm, hd⟩ := h
  rcases Nat.lt_or_ge (d + 1) (monthLength y m) with hlt | hge
  · exact .inl ⟨hlt, by omega, hm, hlt⟩
  have hlast : d + 1 = monthLength y m := by omega
  rcases Nat.lt_or_ge m 11 with hm' | hm'
  · have hnext := monthStart_add hm' y
    exact .inr (.inl ⟨hlast, hm', by omega, by omega, monthLength_pos (by omega) y⟩)
  · obtain rfl : m = 11 := by omega
    have hnext := yearStart_succ y
    have hyear := monthStart_add_last y
    have hmarch : monthStart 0 = 0 := rfl
    exact .inr (.inr ⟨hlast, rfl, by omega, by omega, monthLength_pos (by omega) (y + 1)⟩)

theorem next_within (hm : m < 12) (hd : d + 1 < monthLength y m) :
    (Date.ofMarch y m d).next = Date.ofMarch y m (d + 1) := by
  have hlast := daysInMonth_ofMarch hm y d
  unfold Date.next
  rw [hlast]
  unfold Date.ofMarch
  split <;> simp

theorem next_month (hm : m < 11) (hd : d + 1 = monthLength y m) :
    (Date.ofMarch y m d).next = Date.ofMarch y (m + 1) 0 := by
  have hlast := daysInMonth_ofMarch (Nat.lt_succ_of_lt hm) y d
  unfold Date.next
  rw [hlast, ← hd]
  interval_cases m <;> simp [Date.ofMarch]

theorem next_year (hd : d + 1 = monthLength y 11) :
    (Date.ofMarch y 11 d).next = Date.ofMarch (y + 1) 0 0 := by
  have hlast := daysInMonth_ofMarch (m := 11) (by decide) y d
  unfold Date.next
  rw [hlast, ← hd]
  simp [Date.ofMarch]

end MarchDay

theorem yearStart_add (e y : Nat) : yearStart (400 * e + y) = 146097 * e + yearStart y := by
  have hle : y / 100 ≤ y := Nat.div_le_self ..
  have hfour : (400 * e + y) / 4 = 100 * e + y / 4 := by omega
  have hhundred : (400 * e + y) / 100 = 4 * e + y / 100 := by omega
  have hera : (400 * e + y) / 400 = e + y / 400 := by omega
  simp only [yearStart, hfour, hhundred, hera]
  omega

theorem year_of_dayOfEra {y k n : Nat} (hy : y < 400) (hk : k < yearLength y)
    (hn : n = yearStart y + k) :
    n / 146096 ≤ n - n / 1460 + n / 36524 ∧
      (n - n / 1460 + n / 36524 - n / 146096) / 365 = y := by
  -- The year is the `r`-th of four, these are the `g`-th four of a century, and that is the `c`-th.
  obtain ⟨c, g, r, rfl, hc, hg, hr⟩ : ∃ c g r, y = 100 * c + 4 * g + r ∧ c < 4 ∧ g < 25 ∧ r < 4 :=
    ⟨y / 100, y % 100 / 4, y % 4, by omega⟩
  have hstart : yearStart (100 * c + 4 * g + r) = 36524 * c + 1461 * g + 365 * r := by
    unfold yearStart
    omega
  have hlast : k ≤ 364 ∨ (k = 365 ∧ r = 3 ∧ (g = 24 → c = 3)) := by
    unfold yearLength at hk
    split at hk
    · next hleap =>
        obtain ⟨hfour, hcentury⟩ := hleap
        omega
    · omega
  have hfours : n / 1460 = 25 * c + g + (24 * c + g + 365 * r + k) / 1460 := by
    have hsplit : n = 24 * c + g + 365 * r + k + 1460 * (25 * c + g) := by omega
    rw [hsplit, Nat.add_mul_div_left _ _ (by decide), Nat.add_comm]
  have hcenturies : n / 146096 ≤ n / 36524 ∧ n / 36524 - n / 146096 = c := by
    rcases Nat.lt_or_ge (1461 * g + 365 * r + k) 36524 with hlt | hge
    · have hcentury : n / 36524 = c := by omega
      have hera : n / 146096 = 0 := by omega
      omega
    · obtain rfl : n = 146096 := by omega
      omega
  omega

theorem MarchDay.inEra {z y m d : Nat} (h : MarchDay z y m d) :
    ∃ e y' n k, y = 400 * e + y' ∧ y' < 400 ∧ z / 146097 = e ∧ z % 146097 = n ∧
      n = yearStart y' + k ∧ k = monthStart m + d ∧ k < yearLength y' ∧
      monthStart m ≤ k ∧ k < monthStart (m + 1) := by
  obtain ⟨e, y', rfl, hy⟩ : ∃ e y', y = 400 * e + y' ∧ y' < 400 := ⟨y / 400, y % 400, by omega⟩
  have hstart := yearStart_add e y'
  have hnext : yearStart (400 * e + y' + 1) = _ := yearStart_add e (y' + 1)
  have hend : yearStart (y' + 1) ≤ yearStart 400 := yearStart_mono hy
  have hera : yearStart 400 = 146097 := rfl
  have hlength := yearStart_succ y'
  have hyear := h.inYear
  have hmonth := h.inMonth
  have hnumber := h.number
  exact ⟨e, y', yearStart y' + (monthStart m + d), monthStart m + d, rfl, hy, by omega, by omega,
    rfl, rfl, by omega, by omega, by omega⟩

theorem month_of_dayOfYear {m k : Nat} (h : monthStart m ≤ k ∧ k < monthStart (m + 1)) :
    (5 * k + 2) / 153 = m := by
  unfold monthStart at h
  omega

namespace Date

variable {days y m d : Nat}

theorem ofDays?_eq {limit : Nat} (h : MarchDay (days + 719468) y m d)
    (hlimit : days + 719468 < limit) : ofDays? limit days = some (ofMarch y m d) := by
  obtain ⟨z, hz, hbefore⟩ : ∃ z, days + 719468 = z ∧ 719468 ≤ z := ⟨_, rfl, Nat.le_add_left ..⟩
  rw [hz] at h hlimit
  obtain ⟨e, y, n, k, rfl, hy, hdiv, hmod, hn, hk, hlength, hmonth⟩ := h.inEra
  have hlast := h.month
  obtain ⟨hle, hfound⟩ := year_of_dayOfEra hy hlength hn
  have hsame : 365 * y + y / 4 - y / 100 = yearStart y := by
    unfold yearStart
    omega
  have hmarch : (5 * k + 2) / 153 = m := month_of_dayOfYear hmonth
  have hfirst : (153 * m + 2) / 5 = monthStart m := rfl
  have hpsub : Nat.psub n (yearStart y) = some k := Nat.psub_eq_some.mpr (by omega)
  have hpsub' : Nat.psub k (monthStart m) = some d := Nat.psub_eq_some.mpr (by omega)
  simp only [ofDays?, hz, within?_eq hlimit, hdiv, hmod, Nat.psub_eq_sub (Nat.div_le_self n 1460),
    within?_eq (show n - n / 1460 + n / 36524 < limit by omega), Nat.psub_eq_sub hle,
    hfound, within?_eq (show 365 * y + y / 4 < limit by omega),
    Nat.psub_eq_sub (show y / 100 ≤ 365 * y + y / 4 by omega), hsame, hpsub,
    within?_eq (show 5 * k + 2 < limit by omega), hmarch,
    within?_eq (show 153 * m + 2 < limit by omega), hfirst, hpsub',
    within?_eq (show d + 1 < limit by omega), Option.bind_eq_bind, Option.bind_some,
    Option.pure_def]
  unfold ofMarch
  split
  · have hlate : ¬m + 3 ≤ 2 := by omega
    simp only [within?_eq (show m + 3 < limit by omega), Option.bind_some, hlate, if_false,
      Nat.add_zero, within?_eq (show 400 * e + y < limit by omega), Nat.mul_comm e 400]
  · have hearly : m - 9 ≤ 2 := by omega
    simp only [Nat.psub_eq_sub (show 9 ≤ m by omega), Option.bind_some, hearly, if_true,
      within?_eq (show 400 * e + y + 1 < limit by omega), Nat.mul_comm e 400]

theorem ofDays_of_ofDays? {limit : Nat} {date : Date} (h : ofDays? limit days = some date) :
    ofDays days = date := by
  simp only [ofDays?, Option.bind_eq_bind, Option.bind_eq_some_iff, Nat.psub_eq_some,
    within?_eq_some, Option.pure_def, Option.some.injEq] at h
  obtain ⟨_, ⟨-, rfl⟩, dropped, hdropped, _, ⟨-, rfl⟩, whole, hwhole, _, ⟨-, rfl⟩, start, hstart,
    dayOfYear, hday, _, ⟨-, rfl⟩, _, ⟨-, rfl⟩, dayOfMonth, hmonth, _, ⟨-, rfl⟩, month, hcase,
    _, ⟨-, rfl⟩, rfl⟩ := h
  have hmonth' : (if (5 * dayOfYear + 2) / 153 < 10 then (5 * dayOfYear + 2) / 153 + 3
      else (5 * dayOfYear + 2) / 153 - 9) = month := by
    split at hcase
    · next hlt =>
        rw [if_pos hlt]
        exact (within?_eq_some.mp hcase).2
    · next hge =>
        rw [if_neg hge, ← Nat.psub_eq_some.mp hcase, Nat.add_sub_cancel]
  simp only [ofDays, ← Nat.eq_sub_of_add_eq hdropped, ← Nat.eq_sub_of_add_eq hwhole,
    ← Nat.eq_sub_of_add_eq hstart, ← Nat.eq_sub_of_add_eq hday, ← Nat.eq_sub_of_add_eq hmonth,
    hmonth']

theorem exists_march (days : Nat) :
    ∃ y m d, MarchDay (days + 719468) y m d ∧ ofDays days = ofMarch y m d := by
  obtain ⟨y, m, d, h⟩ := MarchDay.exists_marchDay (days + 719468)
  exact ⟨y, m, d, h, ofDays_of_ofDays? (ofDays?_eq h (Nat.lt_succ_self _))⟩

theorem ofDays?_eq_ofDays_iff (limit days : Nat) :
    ofDays? limit days = some (ofDays days) ↔ days + 719468 < limit := by
  constructor
  · intro h
    obtain ⟨z, hz, -⟩ := Option.bind_eq_some_iff.mp h
    exact (within?_eq_some.mp hz).1
  · intro hlimit
    obtain ⟨y, m, d, h, hdate⟩ := exists_march days
    rw [hdate]
    exact ofDays?_eq h hlimit

theorem ofDays_succ (days : Nat) : ofDays (days + 1) = (ofDays days).next := by
  obtain ⟨y, m, d, h, hdate⟩ := exists_march days
  obtain ⟨y', m', d', h', hdate'⟩ := exists_march (days + 1)
  rw [Nat.add_right_comm] at h'
  rw [hdate, hdate']
  rcases h.succ with ⟨hd, hsucc⟩ | ⟨hd, hm, hsucc⟩ | ⟨hd, rfl, hsucc⟩
  · obtain ⟨rfl, rfl, rfl⟩ := h'.unique hsucc
    exact (MarchDay.next_within h.month hd).symm
  · obtain ⟨rfl, rfl, rfl⟩ := h'.unique hsucc
    exact (MarchDay.next_month hm hd).symm
  · obtain ⟨rfl, rfl, rfl⟩ := h'.unique hsucc
    exact (MarchDay.next_year hd).symm

theorem ofDays_gregorian :
    ofDays 0 = ⟨1970, 1, 1⟩ ∧
    (∀ days, (ofDays days).Valid ∧ ofDays (days + 1) = (ofDays days).next ∧
      ∀ limit, ofDays? limit days = some (ofDays days) ↔ days + 719468 < limit) ∧
    ∀ seconds : UInt64,
      ofDays? (2 ^ 64) (seconds.toNat / 86400) = some (ofDays (seconds.toNat / 86400)) := by
  refine ⟨rfl, fun days => ⟨?_, ofDays_succ days, (ofDays?_eq_ofDays_iff · days)⟩, ?_⟩
  · obtain ⟨y, m, d, h, hdate⟩ := exists_march days
    rw [hdate]
    exact h.valid
  · intro seconds
    have hseconds := seconds.toNat_lt
    exact (ofDays?_eq_ofDays_iff _ _).mpr (by omega)

example : ofDays 11016 = ⟨2000, 2, 29⟩ := rfl

end Date

end Z80
