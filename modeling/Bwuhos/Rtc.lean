import Bwuhos.Data.Loop
import Bwuhos.Data.Word
import Bwuhos.Port
import Mathlib.Algebra.Group.Nat.Defs

namespace Bwuhos.Rtc

open Bwuhos.Data

/-! # The real-time clock

`rtc.c`, without its mutex.  The loop that waits for an update to end takes fuel.
-/

def portCmosReg : Nat := 0x70

def portCmosData : Nat := 0x71

def rSec : Nat := 0x0

def rMin : Nat := 0x2

def rHour : Nat := 0x4

def rDay : Nat := 0x7

def rMonth : Nat := 0x8

def rYear : Nat := 0x9

def rStatusA : Nat := 0xa

def rStatusB : Nat := 0xb

def mfBin : Nat := 0x1

def mf24Hour : Nat := 0x2

/-- `struct rtc_time`. -/
structure RtcTime where
  sec : Nat
  min : Nat
  hour : Nat
  day : Nat
  month : Nat
  year : Nat
  deriving DecidableEq, Repr

/-- `boot_time` and `mode_flags`. -/
structure RtcState where
  bootTime : RtcTime
  modeFlags : Nat
  deriving DecidableEq, Repr

def u8 (value : Nat) : Nat := value % 2 ^ 8

def u16 (value : Nat) : Nat := value % 2 ^ 16

/-- `ASSUME_CENTURY`. -/
def assumeCentury (modeFlags : Nat) : Nat := if modeFlags &&& mfBin ≠ 0 then 20 else 0x20

def fromBcd (value : Nat) : Nat := (value &&& 0x0f) + value / 16 * 10

def convertField (modeFlags value : Nat) : Nat := if modeFlags &&& mfBin ≠ 0 then value else u8 (fromBcd value)

def convertHour (modeFlags hour : Nat) : Nat :=
  let hour := if modeFlags &&& mfBin ≠ 0 then hour
    else u8 ((hour &&& 0x0f) + (hour &&& 0x70) / 16 * 10 ||| (hour &&& 0x80))
  if modeFlags &&& mf24Hour = 0 ∧ hour &&& 0x80 ≠ 0 then ((hour &&& 0x7f) + 12) % 24 else hour

def convertYear (modeFlags year : Nat) : Nat :=
  let year := if modeFlags &&& mfBin ≠ 0 then year else u16 (fromBcd year)
  u16 (year + 100 * convertField modeFlags (assumeCentury modeFlags))

section

variable {World : Type}

/-- Bit 7 of the register number keeps NMIs off. -/
def rdCmosReg (ports : Ports World) (reg : Nat) (world : World) : Nat × World :=
  portRd ports portCmosData .ps8 (portWr ports portCmosReg (0x80 ||| reg) .ps8 world)

def rtcWaitRound (ports : Ports World) (world : World) : Except Unit (World ⊕ World) :=
  if (rdCmosReg ports rStatusA world).1 &&& 0x80 ≠ 0 then .ok (.inl (rdCmosReg ports rStatusA world).2)
  else .ok (.inr (rdCmosReg ports rStatusA world).2)

/-- The registers that are read after the wait, and what they are converted to. -/
def rtcRead (ports : Ports World) (modeFlags : Nat) (world : World) : RtcTime × World :=
  let (sec, world) := rdCmosReg ports rSec world
  let (min, world) := rdCmosReg ports rMin world
  let (hour, world) := rdCmosReg ports rHour world
  let (day, world) := rdCmosReg ports rDay world
  let (month, world) := rdCmosReg ports rMonth world
  let (year, world) := rdCmosReg ports rYear world
  ({ sec := convertField modeFlags sec
     min := convertField modeFlags min
     hour := convertHour modeFlags hour
     day := convertField modeFlags day
     month := convertField modeFlags month
     year := convertYear modeFlags year }, world)

def rtcGetTime (ports : Ports World) (modeFlags fuel : Nat) (world : World) : Except Unit (RtcTime × World) := do
  let world ← loop () (rtcWaitRound ports) fuel world
  return rtcRead ports modeFlags world

/-- The flags of a mode, from status register B. -/
def modeFlagsOf (statusB : Nat) : Nat :=
  mfBin * (if statusB &&& 0x4 ≠ 0 then 1 else 0) ||| mf24Hour * (if statusB &&& 0x2 ≠ 0 then 1 else 0)

def rtcInit (ports : Ports World) (fuel : Nat) (world : World) : Except Unit (RtcState × World) := do
  let (statusB, world) := rdCmosReg ports rStatusB world
  let (bootTime, world) ← rtcGetTime ports (modeFlagsOf statusB) fuel world
  return ({ bootTime, modeFlags := modeFlagsOf statusB }, world)

end

def daysInMonth (year month : Nat) : Nat :=
  if month = 2 then if year % 4 = 0 ∧ (year % 100 ≠ 0 ∨ year % 400 = 0) then 29 else 28
  else if month = 4 ∨ month = 6 ∨ month = 9 ∨ month = 11 then 30 else 31

/-- A time of day on a date of the century that is assumed. -/
structure RtcTime.Valid (t : RtcTime) : Prop where
  sec : t.sec < 60
  min : t.min < 60
  hour : t.hour < 24
  month : 1 ≤ t.month ∧ t.month ≤ 12
  day : 1 ≤ t.day ∧ t.day ≤ daysInMonth t.year t.month
  year : 2000 ≤ t.year ∧ t.year ≤ 2099

/-- A mode of the clock, by status register B. -/
structure ClockMode where
  binary : Bool
  hour24 : Bool
  deriving DecidableEq, Repr

def ClockMode.of (statusB : Nat) : ClockMode := { binary := statusB.testBit 2, hour24 := statusB.testBit 1 }

def ClockMode.flags (mode : ClockMode) : Nat :=
  (if mode.binary then mfBin else 0) ||| if mode.hour24 then mf24Hour else 0

def ClockMode.number (mode : ClockMode) (value : Nat) : Nat :=
  if mode.binary then value else value / 10 * 16 + value % 10

/-- In 12-hour mode the hours go from 1 to 12, with bit 7 for those past noon. -/
def ClockMode.hour (mode : ClockMode) (hour : Nat) : Nat :=
  if mode.hour24 then mode.number hour
  else mode.number (if hour % 12 = 0 then 12 else hour % 12) + if 12 ≤ hour then 0x80 else 0

/-- The registers of a clock that shows a time. -/
def ClockMode.registers (mode : ClockMode) (t : RtcTime) : List (Nat × Nat) :=
  [(rSec, mode.number t.sec), (rMin, mode.number t.min), (rHour, mode.hour t.hour), (rDay, mode.number t.day),
    (rMonth, mode.number t.month), (rYear, mode.number (t.year % 100))]

/-- The world after some reads of status register A. -/
def polled {World : Type} (ports : Ports World) : Nat → World → World
  | 0, world => world
  | polls + 1, world => polled ports polls (rdCmosReg ports rStatusA world).2

/-- The registers hold a time whenever they are read, and an update ends at some time. -/
structure ClockShows {World : Type} (ports : Ports World) (mode : ClockMode) (t : RtcTime) : Prop where
  registers : ∀ held ∈ mode.registers t, ∀ world, (rdCmosReg ports held.1 world).1 = held.2
  updated : ∀ world, ∃ polls, (rdCmosReg ports rStatusA (polled ports polls world)).1 &&& 0x80 = 0

theorem modeFlagsOf_eq (statusB : Nat) : modeFlagsOf statusB = (ClockMode.of statusB).flags := by
  have binary : statusB &&& 0x4 = (statusB.testBit 2).toNat * 4 := Nat.and_two_pow statusB 2
  have hour24 : statusB &&& 0x2 = (statusB.testBit 1).toNat * 2 := Nat.and_two_pow statusB 1
  rw [modeFlagsOf, binary, hour24, ClockMode.of]
  cases statusB.testBit 2 <;> cases statusB.testBit 1 <;> rfl

section

variable {mode : ClockMode} {t : RtcTime}

theorem convertField_number {value : Nat} (small : value < 100) :
    convertField mode.flags (mode.number value) = value := by
  revert value
  obtain ⟨binary, hour24⟩ := mode
  cases binary <;> cases hour24 <;> decide

theorem convertYear_number {value : Nat} (small : value < 100) :
    convertYear mode.flags (mode.number value) = 2000 + value := by
  revert value
  obtain ⟨binary, hour24⟩ := mode
  cases binary <;> cases hour24 <;> decide

/-- The hour is right but for noon and midnight in 12-hour mode. -/
theorem convertHour_hour {hour : Nat} (small : hour < 24) :
    convertHour mode.flags (mode.hour hour) = hour ↔ mode.hour24 = true ∨ hour ≠ 0 ∧ hour ≠ 12 := by
  revert hour
  obtain ⟨binary, hour24⟩ := mode
  cases binary <;> cases hour24 <;> decide

theorem daysInMonth_le (year month : Nat) : daysInMonth year month ≤ 31 := by
  unfold daysInMonth
  split
  · split <;> decide
  · split <;> decide

end

section

variable {World : Type} {ports : Ports World} {mode : ClockMode} {t : RtcTime} {world : World}

theorem rtcWait_settles {polls : Nat} (clear : (rdCmosReg ports rStatusA (polled ports polls world)).1 &&& 0x80 = 0) :
    ∃ after, Settles () (fun fuel => loop () (rtcWaitRound ports) fuel world) after := by
  induction polls generalizing world with
  | zero => exact ⟨_, settles_loop_done (if_neg (not_not.mpr clear))⟩
  | succ polls ih =>
      by_cases busy : (rdCmosReg ports rStatusA world).1 &&& 0x80 ≠ 0
      · obtain ⟨after, settles⟩ := ih clear
        exact ⟨after, settles_loop_next (if_pos busy) settles⟩
      · exact ⟨_, settles_loop_done (if_neg busy)⟩

theorem rtcRead_time (shows : ClockShows ports mode t) (valid : t.Valid) (world : World) :
    (rtcRead ports mode.flags world).1 = { t with hour := convertHour mode.flags (mode.hour t.hour) } := by
  have sec := shows.registers (rSec, mode.number t.sec) (by simp [ClockMode.registers])
  have min := shows.registers (rMin, mode.number t.min) (by simp [ClockMode.registers])
  have hour := shows.registers (rHour, mode.hour t.hour) (by simp [ClockMode.registers])
  have day := shows.registers (rDay, mode.number t.day) (by simp [ClockMode.registers])
  have month := shows.registers (rMonth, mode.number t.month) (by simp [ClockMode.registers])
  have year := shows.registers (rYear, mode.number (t.year % 100)) (by simp [ClockMode.registers])
  have days := Nat.le_trans valid.day.2 (daysInMonth_le _ _)
  have months := valid.month.2
  have century : 2000 + t.year % 100 = t.year := by
    have years := valid.year
    omega
  simp only [rtcRead, sec, min, hour, day, month, year]
  rw [convertField_number (Nat.lt_trans valid.sec (by decide)),
    convertField_number (Nat.lt_trans valid.min (by decide)), convertField_number (by omega),
    convertField_number (by omega), convertYear_number (Nat.mod_lt _ (by decide)), century]

/-- In the end the time is returned, with the hour that the register comes to. -/
theorem rtcGetTime_settles (shows : ClockShows ports mode t) (valid : t.Valid) (world : World) : ∃ after,
    Settles () (fun fuel => rtcGetTime ports mode.flags fuel world)
      ({ t with hour := convertHour mode.flags (mode.hour t.hour) }, after) := by
  obtain ⟨polls, clear⟩ := shows.updated world
  obtain ⟨waited, settles⟩ := rtcWait_settles clear
  refine ⟨(rtcRead ports mode.flags waited).2, settles.bind ?_⟩
  rw [← rtcRead_time shows valid waited]
  exact Settles.now

/-- The mode is that of status register B. -/
theorem rtcInit_settles {statusB : Nat} (shows : ClockShows ports (ClockMode.of statusB) t) (valid : t.Valid)
    (world : World) (status : (rdCmosReg ports rStatusB world).1 = statusB) : ∃ after,
    Settles () (fun fuel => rtcInit ports fuel world)
      ({ bootTime := { t with hour := convertHour (modeFlagsOf statusB) ((ClockMode.of statusB).hour t.hour) }
         modeFlags := modeFlagsOf statusB }, after) := by
  obtain ⟨after, settles⟩ := rtcGetTime_settles shows valid (rdCmosReg ports rStatusB world).2
  rw [← modeFlagsOf_eq] at settles
  refine ⟨after, ?_⟩
  simp only [rtcInit, status]
  exact settles.bind Settles.now

/-- The time that the clock shows is returned unless it is noon or midnight in 12-hour mode. -/
theorem rtc_get_time_decodes_iff (ports : Ports World) (statusB : Nat) (t : RtcTime) (valid : t.Valid)
    (shows : ClockShows ports (ClockMode.of statusB) t) (world : World) :
    (∃ after, Settles () (fun fuel => rtcGetTime ports (modeFlagsOf statusB) fuel world) (t, after)) ↔
      statusB.testBit 1 = true ∨ t.hour ≠ 0 ∧ t.hour ≠ 12 := by
  rw [modeFlagsOf_eq]
  obtain ⟨after, settles⟩ := rtcGetTime_settles shows valid world
  have decoded := @convertHour_hour (ClockMode.of statusB) t.hour valid.hour
  constructor
  · intro returns
    obtain ⟨other, same⟩ := returns
    obtain ⟨fuel, returned⟩ := same.returns
    have times := congrArg (fun result => result.1.hour) (settles.unique returned)
    exact decoded.mp times.symm
  · intro clear
    rw [decoded.mpr clear] at settles
    exact ⟨after, settles⟩

end

def lookUp (registers : List (Nat × Nat)) (reg : Nat) : Nat :=
  ((registers.find? fun held => held.1 = reg).map Prod.snd).getD 0

/-- A clock that stands still.  Its world is the register that was selected last. -/
def clockPorts (registers : List (Nat × Nat)) : Ports UInt8 where
  portRd8 _ selected := (UInt8.ofNat (lookUp registers (selected &&& 0x7f).toNat), selected)
  portRd16 _ selected := (0, selected)
  portRd32 _ selected := (0, selected)
  portWr8 p value selected := if p = 0x70 then value else selected
  portWr16 _ _ selected := selected
  portWr32 _ _ selected := selected

def noon : RtcTime := { sec := 0, min := 30, hour := 12, day := 29, month := 2, year := 2024 }

theorem noon_valid : noon.Valid where
  sec := by decide
  min := by decide
  hour := by decide
  month := by decide
  day := by decide
  year := by decide

theorem clockPorts_read (registers : List (Nat × Nat)) (reg : Nat) (world : UInt8) :
    (rdCmosReg (clockPorts registers) reg world).1 =
      (UInt8.ofNat (lookUp registers (UInt8.ofNat (0x80 ||| reg) &&& 0x7f).toNat)).toNat := by
  have selects : UInt16.ofNat portCmosReg = 0x70 := rfl
  simp only [rdCmosReg, portRd, portWr, clockPorts, if_pos selects]

theorem clockPorts_shows (statusB : Nat) :
    ClockShows (clockPorts ((ClockMode.of statusB).registers noon)) (ClockMode.of statusB) noon := by
  generalize ClockMode.of statusB = mode
  have held : ∀ held ∈ mode.registers noon,
      (UInt8.ofNat (lookUp (mode.registers noon) (UInt8.ofNat (0x80 ||| held.1) &&& 0x7f).toNat)).toNat = held.2 := by
    obtain ⟨binary, hour24⟩ := mode
    cases binary <;> cases hour24 <;> decide
  have idle : lookUp (mode.registers noon) (UInt8.ofNat (0x80 ||| rStatusA) &&& 0x7f).toNat = 0 := rfl
  constructor
  · intro register member world
    rw [clockPorts_read, held register member]
  · intro world
    refine ⟨0, ?_⟩
    rw [polled, clockPorts_read, idle]
    rfl

/-- In 24-hour mode noon comes back as it is. -/
theorem rtc_get_time_decodes_iff_noon :
    ∃ after, Settles () (fun fuel => rtcGetTime (clockPorts ((ClockMode.of 2).registers noon)) (modeFlagsOf 2) fuel 0)
      (noon, after) :=
  (rtc_get_time_decodes_iff _ 2 noon noon_valid (clockPorts_shows 2) 0).mpr (.inl (by decide))

/-- In 12-hour mode noon comes back as midnight. -/
theorem rtc_get_time_noon : noon.Valid ∧
    ClockShows (clockPorts ((ClockMode.of 0).registers noon)) (ClockMode.of 0) noon ∧
    ¬∃ after, Settles () (fun fuel => rtcGetTime (clockPorts ((ClockMode.of 0).registers noon)) (modeFlagsOf 0) fuel 0)
      (noon, after) := by
  refine ⟨noon_valid, clockPorts_shows 0, fun returns => ?_⟩
  obtain ⟨after, settles⟩ := returns
  obtain ⟨fuel, returned⟩ := settles.returns
  obtain ⟨last, actual⟩ := rtcGetTime_settles (clockPorts_shows 0) noon_valid 0
  rw [← modeFlagsOf_eq] at actual
  cases congrArg (fun result => result.1.hour) (actual.unique returned)

end Bwuhos.Rtc
