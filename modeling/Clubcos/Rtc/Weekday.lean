import Mathlib.Tactic.IntervalCases
import Mathlib.Data.List.GetD
import Clubcos.Lib.Calendar

/-!
# rtc.c: the day of the week

* `ckRTCReadDate`   reads the date and computes its weekday with a table of month numbers that is static: it is handed on
  from call to call;
* `ckRTCReadDate_date`   one call, from either state of the table;
* `readDates_right_iff`   **the weekdays are right** in a run of calls as long as no January or February of a common year comes after
  a date in a leap year: the table is never put back.
-/

set_option linter.unusedVariables false

namespace Clubcos.Rtc
open Gregorian

def RTC_ADDRESS_DAYOFMONTH : BitVec 8 := 0x07
def RTC_ADDRESS_MONTH : BitVec 8 := 0x08
def RTC_ADDRESS_YEAR : BitVec 8 := 0x09

structure RTCDate where
  year : BitVec 16
  month : BitVec 8
  dayofmonth : BitVec 8
  dayofweek : BitVec 8
  deriving DecidableEq

def ckBCD8toBinary (b : BitVec 8) : BitVec 8 := (b >>> 4) * 10 + (b &&& 0x0f)

/-- static in `ckRTCReadDate` -/
def MonthsTable : List (BitVec 8) := [0, 3, 3, 6, 1, 4, 6, 2, 5, 0, 3, 5]

def CenturyNumTable : List (BitVec 8) := [6, 4, 2, 0]

/-- an index outside of a table is `none` -/
def monthNumber (table : List (BitVec 8)) (month : BitVec 8) : Option (BitVec 8) :=
  if month = 0 then none else table[month.toNat - 1]?

/-- `cmos` is what the data port gives for each address; the table comes back as the call leaves it -/
def ckRTCReadDate (s_IsBCD : Bool) (cmos : BitVec 8 → BitVec 8) (table : List (BitVec 8)) :
    Option (RTCDate × List (BitVec 8)) := do
  let year : BitVec 16 := (cmos RTC_ADDRESS_YEAR).setWidth 16
  let year := if s_IsBCD then (ckBCD8toBinary (year.setWidth 8)).setWidth 16 + 2000 else year + 2000
  let month := cmos RTC_ADDRESS_MONTH
  let month := if s_IsBCD then ckBCD8toBinary month else month
  let dayofmonth := cmos RTC_ADDRESS_DAYOFMONTH
  let dayofmonth := if s_IsBCD then ckBCD8toBinary dayofmonth else dayofmonth
  let table := if year % 4 = 0 ∧ year % 100 ≠ 0 ∨ year % 400 = 0 then (table.set 0 6).set 1 2 else table
  let y : BitVec 8 := (year % 100).setWidth 8
  let m ← monthNumber table month
  let c ← CenturyNumTable[(y / 100 % 4).toNat]?
  let formula : BitVec 32 :=
    dayofmonth.setWidth 32 + m.setWidth 32 + y.setWidth 32 + (y / 4).setWidth 32 + c.setWidth 32
  return (⟨year, month, dayofmonth, (formula % 7 + 1).setWidth 8⟩, table)

/-! ## the registers -/

/-- how the clock holds a number -/
def register (s_IsBCD : Bool) (n : Nat) : BitVec 8 := BitVec.ofNat 8 (if s_IsBCD then n / 10 * 16 + n % 10 else n)

/-- what the clock shows in one call: a date from 2000 to 2099 -/
structure Reading (s_IsBCD : Bool) where
  date : Date
  since : 2000 ≤ date.year
  before : date.year < 2100
  cmos : BitVec 8 → BitVec 8
  year : cmos RTC_ADDRESS_YEAR = register s_IsBCD (date.year - 2000)
  month : cmos RTC_ADDRESS_MONTH = register s_IsBCD date.month
  day : cmos RTC_ADDRESS_DAYOFMONTH = register s_IsBCD date.day

theorem ckBCD8toBinary_register {n : Nat} (h : n < 100) : ckBCD8toBinary (register true n) = BitVec.ofNat 8 n := by
  have hall : ∀ n < 100, ckBCD8toBinary (register true n) = BitVec.ofNat 8 n := by decide +kernel
  exact hall n h

theorem register_read (s_IsBCD : Bool) {n : Nat} (h : n < 100) :
    (if s_IsBCD then ckBCD8toBinary (register s_IsBCD n) else register s_IsBCD n) = BitVec.ofNat 8 n := by
  cases s_IsBCD with
  | false => rfl
  | true => exact ckBCD8toBinary_register h

theorem day_lt (d : Date) : d.day < 100 := by
  have hle := d.day_le
  have hall : ∀ x ∈ monthDays d.year, x ≤ 31 := by
    unfold monthDays
    simp
    split <;> omega
  rcases Nat.lt_or_ge (d.month - 1) (monthDays d.year).length with h | h
  · rw [List.getD_eq_getElem _ _ h] at hle
    have := hall _ (List.getElem_mem h)
    omega
  · rw [List.getD_eq_default _ _ h] at hle
    omega

/-! ## the table -/

/-- the table before and after the first date in a leap year -/
def tableOf (switched : Bool) : List (BitVec 8) := if switched then [6, 2, 3, 6, 1, 4, 6, 2, 5, 0, 3, 5] else MonthsTable

theorem tableOf_set (switched : Bool) : ((tableOf switched).set 0 6).set 1 2 = tableOf true := by
  cases switched <;> rfl

theorem monthNumber_table (switched : Bool) {month : Nat} (h1 : 1 ≤ month) (h12 : month ≤ 12) :
    ∃ m, monthNumber (tableOf switched) (BitVec.ofNat 8 month) = some m ∧
      m.toNat = (if switched then [6, 2, 3, 6, 1, 4, 6, 2, 5, 0, 3, 5] else [0, 3, 3, 6, 1, 4, 6, 2, 5, 0, 3, 5]).getD
        (month - 1) 0 := by
  cases switched <;> interval_cases month <;> exact ⟨_, rfl, rfl⟩

/-! ## one call -/

/-- the year in a register, with the century -/
theorem year_read (s_IsBCD : Bool) {k : Nat} (hk : k < 100) :
    (if s_IsBCD then (ckBCD8toBinary (((register s_IsBCD k).setWidth 16).setWidth 8)).setWidth 16 + 2000
      else (register s_IsBCD k).setWidth 16 + 2000) = BitVec.ofNat 16 (2000 + k) := by
  have hread := register_read s_IsBCD hk
  have hwide : (BitVec.ofNat 8 k).setWidth 16 + 2000 = BitVec.ofNat 16 (2000 + k) := by
    apply BitVec.eq_of_toNat_eq
    rw [BitVec.toNat_add, BitVec.toNat_setWidth, BitVec.toNat_ofNat, BitVec.toNat_ofNat]
    show (_ + 2000) % 2^16 = _
    omega
  rw [BitVec.setWidth_setWidth_of_le _ (by decide), BitVec.setWidth_eq]
  cases s_IsBCD with
  | false => exact hwide
  | true =>
    simp only [if_true] at hread ⊢
    rw [hread, hwide]

theorem leap_read {k : Nat} (hk : k < 100) : (BitVec.ofNat 16 (2000 + k) % 4 = 0 ∧ BitVec.ofNat 16 (2000 + k) % 100 ≠ 0 ∨
    BitVec.ofNat 16 (2000 + k) % 400 = 0) ↔ leap (2000 + k) := by
  have hmod : ∀ n, n < 2^16 → 0 < n → (BitVec.ofNat 16 (2000 + k) % BitVec.ofNat 16 n = 0 ↔ (2000 + k) % n = 0) := by
    intro n hn hpos
    rw [← BitVec.toNat_inj, BitVec.toNat_umod, BitVec.toNat_ofNat, BitVec.toNat_ofNat, Nat.mod_eq_of_lt hn,
      Nat.mod_eq_of_lt (show 2000 + k < 2^16 by omega)]
    rfl
  exact or_congr (and_congr (hmod 4 (by decide) (by decide)) (not_congr (hmod 100 (by decide) (by decide))))
    (hmod 400 (by decide) (by decide))

/-- the weekday that is computed, with `m` from the table -/
def formula (k day m : Nat) : Nat := (day + m + k + k / 4 + 6) % 7 + 1

theorem formula_read {k day : Nat} (hk : k < 100) (hday : day < 100) (m : BitVec 8) :
    (((BitVec.ofNat 8 day).setWidth 32 + m.setWidth 32 + (BitVec.ofNat 8 k).setWidth 32 + (BitVec.ofNat 8 k / 4).setWidth 32 +
      (6 : BitVec 8).setWidth 32) % 7 + 1 : BitVec 32).setWidth 8 = BitVec.ofNat 8 (formula k day m.toNat) := by
  have hm := m.isLt
  have h4 : (BitVec.ofNat 8 k / 4).toNat = k / 4 := by
    rw [BitVec.toNat_udiv, BitVec.toNat_ofNat, Nat.mod_eq_of_lt (by omega)]
    rfl
  have h6 : ((6 : BitVec 8).setWidth 32).toNat = 6 := rfl
  have h7 : (7 : BitVec 32).toNat = 7 := rfl
  have h1 : (1 : BitVec 32).toNat = 1 := rfl
  apply BitVec.eq_of_toNat_eq
  rw [BitVec.toNat_setWidth, BitVec.toNat_add, BitVec.toNat_umod, h7, h1]
  unfold formula
  simp (disch := omega) only [BitVec.toNat_add, BitVec.toNat_setWidth, BitVec.toNat_ofNat, h4, h6, Nat.mod_eq_of_lt]

/-- **One call**, from either state of the table. -/
theorem ckRTCReadDate_date {s_IsBCD : Bool} (r : Reading s_IsBCD) (switched : Bool) :
    ∃ m, monthNumber (tableOf (switched || decide (leap r.date.year))) (BitVec.ofNat 8 r.date.month) = some m ∧
      ckRTCReadDate s_IsBCD r.cmos (tableOf switched) =
        some (⟨BitVec.ofNat 16 r.date.year, BitVec.ofNat 8 r.date.month, BitVec.ofNat 8 r.date.day,
          BitVec.ofNat 8 (formula (r.date.year - 2000) r.date.day m.toNat)⟩,
          tableOf (switched || decide (leap r.date.year))) := by
  obtain ⟨k, hyear⟩ := Nat.exists_eq_add_of_le r.since
  have hk : k < 100 := by
    have := r.before
    omega
  have hsub : r.date.year - 2000 = k := by omega
  have hday := day_lt r.date
  have hmonth : r.date.month < 100 := Nat.lt_of_le_of_lt r.date.month_le (by decide)
  have htable : (if BitVec.ofNat 16 (2000 + k) % 4 = 0 ∧ BitVec.ofNat 16 (2000 + k) % 100 ≠ 0 ∨
      BitVec.ofNat 16 (2000 + k) % 400 = 0 then ((tableOf switched).set 0 6).set 1 2 else tableOf switched) =
        tableOf (switched || decide (leap (2000 + k))) := by
    by_cases h : leap (2000 + k)
    · rw [if_pos ((leap_read hk).mpr h), tableOf_set, decide_eq_true h, Bool.or_true]
    · rw [if_neg (mt (leap_read hk).mp h), decide_eq_false h, Bool.or_false]
  have hy : (BitVec.ofNat 16 (2000 + k) % 100).setWidth 8 = BitVec.ofNat 8 k := by
    apply BitVec.eq_of_toNat_eq
    rw [BitVec.toNat_setWidth, BitVec.toNat_umod, BitVec.toNat_ofNat, BitVec.toNat_ofNat,
      Nat.mod_eq_of_lt (show 2000 + k < 2^16 by omega)]
    show (2000 + k) % 100 % 2^8 = _
    omega
  have hc : CenturyNumTable[(BitVec.ofNat 8 k / 100 % 4).toNat]? = some 6 := by
    have hzero : BitVec.ofNat 8 k / 100 = 0 := by
      apply BitVec.eq_of_toNat_eq
      rw [BitVec.toNat_udiv, BitVec.toNat_ofNat, Nat.mod_eq_of_lt (by omega)]
      exact Nat.div_eq_of_lt hk
    rw [hzero]
    rfl
  obtain ⟨m, hm, _⟩ := monthNumber_table (switched || decide (leap r.date.year)) r.date.month_pos r.date.month_le
  refine ⟨m, hm, ?_⟩
  unfold ckRTCReadDate
  simp only
  rw [r.year, r.month, r.day, hsub, year_read s_IsBCD hk, register_read s_IsBCD hmonth, register_read s_IsBCD hday, htable, hy,
    hc, ← hyear, hm]
  simp only [Option.bind_eq_bind, Option.bind_some]
  rw [formula_read hk hday]
  rfl

theorem daysBeforeYear_century {k : Nat} (hk : k < 100) : daysBeforeYear (2000 + k) = 730485 + 365 * k + (k + 3) / 4 := by
  have h := daysBeforeYear_eq (2000 + k)
  rcases Nat.eq_zero_or_pos k with rfl | hpos
  · omega
  · have h100 : (2000 + k + 99) / 100 = 21 := by omega
    have h400 : (2000 + k + 399) / 400 = 6 := by omega
    omega

theorem leap_century {k : Nat} (hk : k < 100) : leap (2000 + k) ↔ k % 4 = 0 := by
  unfold leap
  omega

/-- **The formula is right** for the month numbers of the year, and those are in the table unless the ones for a leap year are left
over from an earlier date. -/
theorem formula_iff {k day month m : Nat} {switched : Bool} (hk : k < 100) (h1 : 1 ≤ month) (h12 : month ≤ 12) (hday : 1 ≤ day)
    (hm : m = (if switched then [6, 2, 3, 6, 1, 4, 6, 2, 5, 0, 3, 5] else [0, 3, 3, 6, 1, 4, 6, 2, 5, 0, 3, 5]).getD (month - 1) 0)
    (hleap : leap (2000 + k) → switched = true) :
    formula k day m = (daysBeforeYear (2000 + k) + daysBeforeMonth (2000 + k) month + (day - 1) + 6) % 7 + 1 ↔
      (switched = true → leap (2000 + k) ∨ 2 < month) := by
  rw [daysBeforeYear_century hk]
  unfold formula daysBeforeMonth monthDays
  by_cases hl : leap (2000 + k)
  · have h4 := (leap_century hk).mp hl
    have hquarter : (k + 3) / 4 = k / 4 := by omega
    rw [hleap hl] at hm
    rw [hquarter]
    simp only [hl, if_true] at hm ⊢
    interval_cases month <;> simp at hm ⊢ <;> omega
  · have h4 := mt (leap_century hk).mpr hl
    have hquarter : (k + 3) / 4 = k / 4 + 1 := by omega
    rw [hquarter]
    cases switched <;> simp only [hl, if_true, if_false] at hm ⊢ <;> interval_cases month <;> simp at hm ⊢ <;> omega

/-- the month has the number in the table that its year needs, if the one for a leap year is there -/
def Fits {s_IsBCD : Bool} (r : Reading s_IsBCD) : Prop := leap r.date.year ∨ 2 < r.date.month

theorem weekday_iff {s_IsBCD : Bool} (r : Reading s_IsBCD) (switched : Bool) :
    ∃ d, ckRTCReadDate s_IsBCD r.cmos (tableOf switched) = some (d, tableOf (switched || decide (leap r.date.year))) ∧
      (d.dayofweek.toNat = r.date.weekday + 1 ↔ (switched = true → Fits r)) := by
  obtain ⟨m, hm, hrun⟩ := ckRTCReadDate_date r switched
  refine ⟨_, hrun, ?_⟩
  obtain ⟨k, hyear⟩ := Nat.exists_eq_add_of_le r.since
  have hk : k < 100 := by
    have := r.before
    omega
  obtain ⟨m', hm', hval⟩ := monthNumber_table (switched || decide (leap r.date.year)) r.date.month_pos r.date.month_le
  obtain rfl := Option.some.inj (hm.symm.trans hm')
  have hright := formula_iff hk r.date.month_pos r.date.month_le r.date.day_pos hval fun h => by simp [hyear, h]
  have hsmall : formula k r.date.day m.toNat < 2^8 := by
    unfold formula
    omega
  have hsub : r.date.year - 2000 = k := by omega
  rw [BitVec.toNat_ofNat, hsub, Nat.mod_eq_of_lt hsmall, Date.weekday, Date.number, hyear, hright, ← hyear]
  unfold Fits
  by_cases hl : leap r.date.year <;> simp [hl]

/-! ## calls in a row -/

def readDates (s_IsBCD : Bool) : (calls : List (BitVec 8 → BitVec 8)) → (table : List (BitVec 8)) → Option (List RTCDate)
  | [], _ => some []
  | cmos :: calls, table => (ckRTCReadDate s_IsBCD cmos table).bind fun (d, table) => (readDates s_IsBCD calls table).map (d :: ·)

theorem readDates_from {s_IsBCD : Bool} {rs : List (Reading s_IsBCD)} : ∀ switched : Bool, ∃ ds,
    readDates s_IsBCD (rs.map Reading.cmos) (tableOf switched) = some ds ∧
      (ds.map (fun d => d.dayofweek.toNat) = rs.map (fun r => r.date.weekday + 1) ↔
        (∀ r ∈ rs, switched = true → Fits r) ∧ rs.Pairwise fun r r' => leap r.date.year → Fits r') := by
  induction rs with
  | nil => exact fun _ => ⟨[], rfl, by simp⟩
  | cons r rs ih =>
    intro switched
    obtain ⟨d, hd, hright⟩ := weekday_iff r switched
    obtain ⟨ds, hds, hrest⟩ := ih (switched || decide (leap r.date.year))
    refine ⟨d :: ds, ?_, ?_⟩
    · rw [List.map_cons, readDates, hd, Option.bind_some]
      simp only
      rw [hds, Option.map_some]
    · rw [List.map_cons, List.map_cons, List.cons_eq_cons, hright, hrest, List.forall_mem_cons, List.pairwise_cons]
      have hsplit : (∀ r' ∈ rs, (switched || decide (leap r.date.year)) = true → Fits r') ↔
          (∀ r' ∈ rs, switched = true → Fits r') ∧ ∀ r' ∈ rs, leap r.date.year → Fits r' := by
        simp only [Bool.or_eq_true, decide_eq_true_iff, or_imp, forall_and]
      rw [hsplit]
      simp only [and_assoc]

/-- **The weekdays are right** in a run of calls exactly if no January or February of a common year comes after a date in a leap year. -/
theorem readDates_right_iff (s_IsBCD : Bool) (rs : List (Reading s_IsBCD)) : ∃ ds,
    readDates s_IsBCD (rs.map Reading.cmos) MonthsTable = some ds ∧
      (ds.map (fun d => d.dayofweek.toNat) = rs.map (fun r => r.date.weekday + 1) ↔
        rs.Pairwise fun r r' => leap r.date.year → leap r'.date.year ∨ 2 < r'.date.month) := by
  obtain ⟨ds, hds, hright⟩ := @readDates_from s_IsBCD rs false
  exact ⟨ds, hds, hright.trans ⟨fun h => h.2, fun h => ⟨fun _ _ h => Bool.noConfusion h, h⟩⟩⟩

/-- the registers of a clock that shows a date -/
def Reading.of (s_IsBCD : Bool) (date : Date) (since : 2000 ≤ date.year) (before : date.year < 2100) : Reading s_IsBCD where
  date := date
  since := since
  before := before
  cmos a := register s_IsBCD
    (if a = RTC_ADDRESS_YEAR then date.year - 2000 else if a = RTC_ADDRESS_MONTH then date.month else date.day)
  year := rfl
  month := rfl
  day := rfl

/-- a date in 2016, a Thursday, and the first day of 2017, a Sunday -/
def yearChange : List (Reading true) :=
  [.of true ⟨2016, 5, 5, by decide, by decide, by decide, by decide⟩ (by decide) (by decide),
    .of true ⟨2017, 1, 1, by decide, by decide, by decide, by decide⟩ (by decide) (by decide)]

/-- **The first day of 2017** is a Saturday, if the clock has been read before. -/
theorem january_after_leap_year : ¬ ∃ ds, readDates true (yearChange.map Reading.cmos) MonthsTable = some ds ∧
    ds.map (fun d => d.dayofweek.toNat) = yearChange.map fun r => r.date.weekday + 1 := by
  rintro ⟨ds, hrun, hds⟩
  have hcode : (readDates true (yearChange.map Reading.cmos) MonthsTable).map (fun ds => ds.map fun d => d.dayofweek.toNat) =
      some [5, 7] := by decide +kernel
  have hdates : (yearChange.map fun r => r.date.weekday + 1) = [5, 1] := by decide +kernel
  rw [hrun, Option.map_some, hds, hdates] at hcode
  exact absurd hcode (by decide)

end Clubcos.Rtc
