namespace SourceGauge.Clock

/-- Year, month and day of a day counted from the first of January 1970. Years are counted from
March, so that a leap day is the last day of its year, and in eras of 400 years. -/
def date (day : Nat) : Nat × Nat × Nat :=
  let shifted := day + 719468
  let era := shifted / 146097
  let dayOfEra := shifted % 146097
  let yearOfEra := (dayOfEra - dayOfEra / 1460 + dayOfEra / 36524 - dayOfEra / 146096) / 365
  let dayOfYear := dayOfEra - (365 * yearOfEra + yearOfEra / 4 - yearOfEra / 100)
  let month := (5 * dayOfYear + 2) / 153
  let calendarMonth := if month < 10 then month + 3 else month - 9
  let year := yearOfEra + era * 400 + (if calendarMonth ≤ 2 then 1 else 0)
  (year, calendarMonth, dayOfYear - (153 * month + 2) / 5 + 1)

def padded (width n : Nat) : String :=
  let digits := Nat.toDigits 10 n
  String.ofList (List.replicate (width - digits.length) '0' ++ digits)

/-- The time that a report shows, from seconds since the first of January 1970. -/
def text (seconds : Nat) : String :=
  let (year, month, day) := date (seconds / 86400)
  let rest := seconds % 86400
  padded 4 year ++ "-" ++ padded 2 month ++ "-" ++ padded 2 day ++ " " ++ padded 2 (rest / 3600) ++
    ":" ++ padded 2 (rest / 60 % 60) ++ ":" ++ padded 2 (rest % 60) ++ " UTC"

end SourceGauge.Clock
