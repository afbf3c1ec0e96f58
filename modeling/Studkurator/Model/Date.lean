import Mathlib.Data.Int.Basic
import Mathlib.Data.Nat.Notation
import Std.Data.String.ToNat

/-!
# Dates and their two text patterns

The codec writes and reads dates as `yyyy-MM-dd hh:mm`, the form and the detail
screen as `yyyy-MM-dd HH:mm`. Printing is concrete; of reading only its effect on
printed text is fixed, so the results hold for every reading of other texts.
-/

namespace Studkurator

set_option autoImplicit false

def isLeap (year : ℕ) : Bool := year % 4 = 0 ∧ (year % 100 ≠ 0 ∨ year % 400 = 0)

def daysIn (year month : ℕ) : ℕ :=
  if month = 2 then (if isLeap year then 29 else 28)
  else if month ∈ [4, 6, 9, 11] then 30 else 31

structure Day where
  year : ℕ
  month : ℕ
  day : ℕ
  valid : 1 ≤ year ∧ 1 ≤ month ∧ month ≤ 12 ∧ 1 ≤ day ∧ day ≤ daysIn year month
  deriving DecidableEq

/-- A moment of a calendar without gaps; `below` is what a minute does not show. -/
structure Date where
  day : Day
  hour : Fin 24
  minute : Fin 60
  below : ℕ
  deriving DecidableEq

inductive HourField where
  | hh
  | HH
  deriving DecidableEq

namespace DateFormatter

def padded (width n : ℕ) : List Char := (Nat.toDigits 10 n).leftpad width '0'

/-- `hh` counts the hours of the half day from 1, with 12 standing for 0. -/
def hourText : HourField → Fin 24 → ℕ
  | .HH, hour => hour
  | .hh, hour => if hour.val % 12 = 0 then 12 else hour.val % 12

/-- `DateFormatter.string(from:)`. -/
def string (field : HourField) (date : Date) : String :=
  String.ofList (padded 4 date.day.year ++ '-' :: (padded 2 date.day.month ++ '-' ::
    (padded 2 date.day.day ++ ' ' :: (padded 2 (hourText field date.hour) ++ ':' ::
      padded 2 date.minute))))

/-- What printing keeps of a date: `hh` forgets which half of the day it was. -/
def readBack : HourField → Date → Date
  | .HH, date => { date with below := 0 }
  | .hh, date => { date with hour := ⟨date.hour.val % 12, by omega⟩, below := 0 }

end DateFormatter

/-- `DateFormatter.date(from:)` for both patterns, with its behaviour on printed text. -/
structure DateFormatter where
  date : HourField → String → Option Date
  date_string : ∀ field d,
    date field (DateFormatter.string field d) = some (DateFormatter.readBack field d)

namespace DateFormatter

theorem readBack_hh_hour_lt (d : Date) : (readBack .hh d).hour.val < 12 := by
  simp only [readBack]
  omega

theorem readBack_hh_eq_self {d : Date} (hhour : d.hour.val < 12) (hbelow : d.below = 0) :
    readBack .hh d = d := by
  obtain ⟨day, hour, minute, below⟩ := d
  simp only [readBack, Date.mk.injEq, true_and] at *
  refine ⟨Fin.ext ?_, hbelow.symm⟩
  simp only
  omega

theorem string_hh_readBack (d : Date) : string .hh (readBack .hh d) = string .hh d := by
  have hmod : d.hour.val % 12 % 12 = d.hour.val % 12 := by omega
  simp only [string, readBack, hourText, hmod]

def takeNumber (text : List Char) : Option (ℕ × List Char) :=
  if text.takeWhile Char.isDigit = [] then none
  else some (Nat.ofDigitChars 10 (text.takeWhile Char.isDigit) 0, text.dropWhile Char.isDigit)

def expect (c : Char) : List Char → Option (List Char)
  | d :: text => if c = d then some text else none
  | [] => none

def hourOf : HourField → ℕ → Option (Fin 24)
  | .HH, n => if h : n < 24 then some ⟨n, h⟩ else none
  | .hh, n => if 1 ≤ n ∧ n ≤ 12 then some ⟨n % 12, by omega⟩ else none

def gregorianDate (field : HourField) (text : String) : Option Date := do
  let (year, rest) ← takeNumber text.toList
  let (month, rest) ← takeNumber (← expect '-' rest)
  let (day, rest) ← takeNumber (← expect '-' rest)
  let (hour, rest) ← takeNumber (← expect ' ' rest)
  let (minute, rest) ← takeNumber (← expect ':' rest)
  let hour ← hourOf field hour
  if hday : 1 ≤ year ∧ 1 ≤ month ∧ month ≤ 12 ∧ 1 ≤ day ∧ day ≤ daysIn year month then
    if hminute : minute < 60 then
      if rest = [] then some ⟨⟨year, month, day, hday⟩, hour, ⟨minute, hminute⟩, 0⟩ else none
    else none
  else none

theorem isDigit_of_mem_padded {width n : ℕ} {c : Char} (h : c ∈ padded width n) :
    c.isDigit = true := by
  rcases List.mem_append.mp h with h | h
  · rw [List.eq_of_mem_replicate h]
    decide
  · exact Nat.isDigit_of_mem_toDigits (by decide) (by decide) h

theorem padded_ne_nil (width n : ℕ) : padded width n ≠ [] := by
  simp [padded, List.leftpad]

theorem ofDigitChars_padded (width n : ℕ) : Nat.ofDigitChars 10 (padded width n) 0 = n := by
  rw [padded, List.leftpad, Nat.ofDigitChars_append, Nat.ofDigitChars_replicate_zero,
    Nat.mul_zero, Nat.ofDigitChars_ten_toDigits]

theorem takeNumber_padded (width n : ℕ) (rest : List Char)
    (hrest : ∀ c, rest.head? = some c → c.isDigit = false) :
    takeNumber (padded width n ++ rest) = some (n, rest) := by
  have hall : ∀ c ∈ padded width n, c.isDigit = true := fun c hc => isDigit_of_mem_padded hc
  have hstop : rest.takeWhile Char.isDigit = [] ∧ rest.dropWhile Char.isDigit = rest := by
    cases rest with
    | nil => exact ⟨rfl, rfl⟩
    | cons c rest =>
      have hc := hrest c rfl
      simp [hc]
  rw [takeNumber, List.takeWhile_append_of_pos hall, List.dropWhile_append_of_pos hall,
    hstop.1, hstop.2, List.append_nil, if_neg (padded_ne_nil width n), ofDigitChars_padded]

theorem hourOf_hourText (field : HourField) (d : Date) :
    hourOf field (hourText field d.hour) = some (readBack field d).hour := by
  cases field with
  | HH => simp [hourOf, hourText, readBack]
  | hh =>
    have hrange : 1 ≤ hourText .hh d.hour ∧ hourText .hh d.hour ≤ 12 := by
      simp only [hourText]
      split <;> omega
    have hmod : hourText .hh d.hour % 12 = d.hour.val % 12 := by
      simp only [hourText]
      split <;> omega
    simp only [hourOf, hrange, and_self, if_true, readBack, hmod]

theorem gregorianDate_string (field : HourField) (d : Date) :
    gregorianDate field (string field d) = some (readBack field d) := by
  have hyear := takeNumber_padded 4 d.day.year ('-' :: (padded 2 d.day.month ++ '-' ::
    (padded 2 d.day.day ++ ' ' :: (padded 2 (hourText field d.hour) ++ ':' ::
      padded 2 d.minute)))) (by simp)
  have hmonth := takeNumber_padded 2 d.day.month ('-' :: (padded 2 d.day.day ++ ' ' ::
    (padded 2 (hourText field d.hour) ++ ':' :: padded 2 d.minute))) (by simp)
  have hday := takeNumber_padded 2 d.day.day
    (' ' :: (padded 2 (hourText field d.hour) ++ ':' :: padded 2 d.minute)) (by simp)
  have hhour := takeNumber_padded 2 (hourText field d.hour) (':' :: padded 2 d.minute) (by simp)
  have hminute := takeNumber_padded 2 d.minute [] (by simp)
  rw [List.append_nil] at hminute
  have hlt : d.minute.val < 60 := d.minute.isLt
  simp only [gregorianDate, string, String.toList_ofList, hyear, hmonth, hday, hhour, hminute,
    expect, if_true, Option.bind_eq_bind, Option.bind_some, hourOf_hourText, d.day.valid,
    and_self, dif_pos, hlt]
  cases field <;> rfl

def gregorian : DateFormatter := ⟨gregorianDate, gregorianDate_string⟩

end DateFormatter

end Studkurator
