import Rhubarb.Foundations.Bytes

/-!
Reading the real-time clock (`drivers/rtc/src/rtc.rs`).

The clock holds its time in binary or in decimal digits, and its hours up to 12 with a flag for the
afternoon or up to 23.  A status register has the format.

* `nowUnsynced`: what is read.
* `Format`, `Holds`: a time in a format, as the clock holds it.
* `nowUnsynced_eq_iff`: the times that are read as they are.
-/

namespace Rhubarb.Rtc

open Foundations

/-! ### The model -/

/-- `Time`. -/
@[ext]
structure Time where
  year : UInt8
  month : UInt8
  day : UInt8
  hour : UInt8
  minute : UInt8
  second : UInt8
  deriving DecidableEq, Repr

def secondRegister : UInt8 := 0x00
def minuteRegister : UInt8 := 0x02
def hourRegister : UInt8 := 0x04
def dayRegister : UInt8 := 0x07
def monthRegister : UInt8 := 0x08
def yearRegister : UInt8 := 0x09
def statusRegisterB : UInt8 := 0x0B

/-- `FORMAT_24_HOUR_FLAG`. -/
def format24HourFlag : UInt8 := (1 : UInt8) <<< 1

/-- `FORMAT_BINARY_FLAG`. -/
def formatBinaryFlag : UInt8 := (1 : UInt8) <<< 2

/-- `HOUR_PM_FLAG`. -/
def hourPmFlag : UInt8 := (1 : UInt8) <<< 7

def convertBcd (value : UInt8) : UInt8 := (value &&& 0x0F) + value / 16 * 10

/-- What `now_unsynced` makes of the hour's register.  The flag of the 24-hour format is looked up
in the hour, not in the format. -/
def readHour (bcd : Bool) (hour : UInt8) : UInt8 :=
  let hour := if bcd then convertBcd (hour &&& 0x7F) ||| (hour &&& 0x80) else hour
  let afterNoon : Bool := hour &&& hourPmFlag = hourPmFlag
  let format24Hour : Bool := hour &&& format24HourFlag = format24HourFlag
  if format24Hour && afterNoon then ((hour &&& 0x7F) + 12) % 24 else hour

/-- `Time::now_unsynced`. -/
def nowUnsynced (readCmos : UInt8 → UInt8) : Time :=
  let format := readCmos statusRegisterB
  let bcd : Bool := format &&& formatBinaryFlag ≠ formatBinaryFlag
  let field (register : UInt8) : UInt8 :=
    if bcd then convertBcd (readCmos register) else readCmos register
  { year := field yearRegister
    month := field monthRegister
    day := field dayRegister
    hour := readHour bcd (readCmos hourRegister)
    minute := field minuteRegister
    second := field secondRegister }

/-! ### The clock -/

/-- A date and a time of day. -/
structure Time.Valid (t : Time) : Prop where
  year : t.year < 100
  month : 1 ≤ t.month ∧ t.month ≤ 12
  day : 1 ≤ t.day ∧ t.day ≤ 31
  hour : t.hour < 24
  minute : t.minute < 60
  second : t.second < 60

/-- The formats of status register B. -/
structure Format where
  binary : Bool
  hours24 : Bool
  deriving DecidableEq

namespace Format

/-- A number of two digits in a register. -/
def digits (f : Format) (v : UInt8) : UInt8 := if f.binary then v else v / 10 * 16 + v % 10

/-- The hours of the day in a register: midnight and noon are 12 on a clock of twelve hours. -/
def hour (f : Format) (h : UInt8) : UInt8 :=
  if f.hours24 then f.digits h
  else f.digits (if h % 12 = 0 then 12 else h % 12) ||| (if 12 ≤ h then 0x80 else 0)

end Format

/-- **The clock holds a time** in a format. -/
structure Holds (cmos : UInt8 → UInt8) (f : Format) (t : Time) : Prop where
  year : cmos 0x09 = f.digits t.year
  month : cmos 0x08 = f.digits t.month
  day : cmos 0x07 = f.digits t.day
  hour : cmos 0x04 = f.hour t.hour
  minute : cmos 0x02 = f.digits t.minute
  second : cmos 0x00 = f.digits t.second
  binary : cmos 0x0B &&& 4 ≠ 0 ↔ f.binary = true
  hours24 : cmos 0x0B &&& 2 ≠ 0 ↔ f.hours24 = true

/-! ### What is read -/

lemma convertBcd_digits : ∀ v : UInt8, v < 100 → convertBcd (v / 10 * 16 + v % 10) = v :=
  forall_byte (by decide +kernel)

/-- A hundred numbers are read as they are, in both formats. -/
lemma read_digits (f : Format) {v : UInt8} (h : v < 100) :
    (if !f.binary then convertBcd (f.digits v) else f.digits v) = v := by
  cases hf : f.binary
  · simpa [Format.digits, hf] using convertBcd_digits v h
  · simp [Format.digits, hf]

/-- The hours that are read as they are. -/
lemma readHour_eq_iff (f : Format) : ∀ h : UInt8, h < 24 →
    (readHour (!f.binary) (f.hour h) = h
      ↔ f.hours24 = true ∨ 1 ≤ h ∧ h < 12 ∨ h ∈ ([14, 15, 18, 19, 22, 23] : List UInt8)) := by
  rcases f with ⟨_ | _, _ | _⟩ <;> exact forall_byte (by decide +kernel)

/-- The flag of the binary format is looked up where it is. -/
lemma bcd_eq {cmos : UInt8 → UInt8} {f : Format} {t : Time} (h : Holds cmos f t) :
    decide (cmos statusRegisterB &&& formatBinaryFlag ≠ formatBinaryFlag) = !f.binary := by
  have hflag : ∀ b : UInt8, b &&& formatBinaryFlag ≠ formatBinaryFlag ↔ ¬(b &&& 4 ≠ 0) :=
    forall_byte (by decide +kernel)
  rw [Bool.eq_iff_iff, decide_eq_true_eq, statusRegisterB, hflag, h.binary, Bool.not_eq_true,
    Bool.not_eq_true']

/-- **The times that are read as they are**: all those of the 24-hour format, and of the other those
of the morning after midnight, and those of the afternoon whose hour has the bit that is taken for
the flag of the 24-hour format. -/
theorem nowUnsynced_eq_iff {cmos : UInt8 → UInt8} {f : Format} {t : Time} (hv : t.Valid)
    (h : Holds cmos f t) :
    nowUnsynced cmos = t
      ↔ f.hours24 = true ∨ 1 ≤ t.hour ∧ t.hour < 12
        ∨ t.hour ∈ ([14, 15, 18, 19, 22, 23] : List UInt8) := by
  have hmonth : t.month < 100 := UInt8.lt_of_le_of_lt hv.month.2 (by decide)
  have hday : t.day < 100 := UInt8.lt_of_le_of_lt hv.day.2 (by decide)
  have hminute : t.minute < 100 := UInt8.lt_trans hv.minute (by decide)
  have hsecond : t.second < 100 := UInt8.lt_trans hv.second (by decide)
  rw [← readHour_eq_iff f t.hour hv.hour]
  simp only [nowUnsynced, bcd_eq h, secondRegister, minuteRegister, hourRegister, dayRegister,
    monthRegister, yearRegister, h.year, h.month, h.day, h.hour, h.minute, h.second,
    read_digits f hv.year, read_digits f hmonth, read_digits f hday, read_digits f hminute,
    read_digits f hsecond, Time.ext_iff, true_and, and_true]

/-- Registers of a clock, with the given hour and format. -/
def registers (hour statusB : UInt8) (register : UInt8) : UInt8 :=
  if register = 0x04 then hour else if register = 0x0B then statusB else 0x12

/-- Twelve past two in the afternoon, on a clock of twelve hours. -/
theorem nowUnsynced_eq_iff_two : nowUnsynced (registers 0x82 0x00) = ⟨12, 12, 12, 14, 12, 12⟩ :=
  (nowUnsynced_eq_iff (f := ⟨false, false⟩)
    ⟨by decide, by decide, by decide, by decide, by decide, by decide⟩
    ⟨by decide, by decide, by decide, by decide, by decide, by decide, by decide, by decide⟩).mpr
    (by decide)

/-- One in the afternoon is read as hour 129, noon as 140 and midnight as 12. -/
theorem nowUnsynced_afternoon :
    Holds (registers 0x81 0x00) ⟨false, false⟩ ⟨12, 12, 12, 13, 12, 12⟩
    ∧ nowUnsynced (registers 0x81 0x00) = ⟨12, 12, 12, 129, 12, 12⟩
    ∧ nowUnsynced (registers 0x92 0x00) = ⟨12, 12, 12, 140, 12, 12⟩
    ∧ nowUnsynced (registers 0x12 0x00) = ⟨12, 12, 12, 12, 12, 12⟩ :=
  ⟨⟨by decide, by decide, by decide, by decide, by decide, by decide, by decide, by decide⟩,
    by decide⟩

end Rhubarb.Rtc
