namespace Pipeline.Calendar

inductive Fault where
  | year (n : Nat)
  | month
  | day
  | hour
  | minute
  | second
  | microsecond
  | beyond
deriving DecidableEq

def Fault.message : Fault → String
  | year n => "year " ++ toString n ++ " is out of range"
  | month => "month must be in 1..12"
  | day => "day is out of range for month"
  | hour => "hour must be in 0..23"
  | minute => "minute must be in 0..59"
  | second => "second must be in 0..59"
  | microsecond => "microsecond must be in 0..999999"
  | beyond => "date value out of range"

def isLeap (year : Nat) : Bool := year % 4 == 0 && (year % 100 != 0 || year % 400 == 0)

def daysIn (year month : Nat) : Nat :=
  if month = 2 then if isLeap year then 29 else 28
  else if month = 4 ∨ month = 6 ∨ month = 9 ∨ month = 11 then 30 else 31

def checkDate (year month day : Nat) : Except Fault Unit :=
  if year = 0 ∨ 9999 < year then .error (.year year)
  else if month = 0 ∨ 12 < month then .error .month
  else if day = 0 ∨ daysIn year month < day then .error .day
  else .ok ()

def checkTime (hour minute second microsecond : Nat) : Except Fault Unit :=
  if 23 < hour then .error .hour
  else if 59 < minute then .error .minute
  else if 59 < second then .error .second
  else if 999999 < microsecond then .error .microsecond
  else .ok ()

def dayNumber (year month day : Nat) : Nat :=
  let past := year - 1
  let behind := past * 365 + past / 4 - past / 100 + past / 400 + (day - 1)
  (List.range (month - 1)).foldl (fun n m => n + daysIn year (m + 1)) behind

/-- Whether a moment, given by its day and the minutes of that day, stays in the calendar when it
is set back by some minutes. -/
def checkShift (dayNo minutes : Nat) (back : Int) : Except Fault Unit :=
  let shifted := (dayNo * 1440 + minutes : Int) - back
  if 0 ≤ shifted ∧ shifted < ((dayNumber 9999 12 31 + 1) * 1440 : Nat) then .ok ()
  else .error .beyond

end Pipeline.Calendar
