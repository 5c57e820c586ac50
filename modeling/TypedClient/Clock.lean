/-! Points in time as texts: the date and the time of day in UTC, to the millisecond. -/

namespace TypedClient.Clock

/-- A number with zeros in front of it up to a width. -/
def padded (width n : Nat) : String :=
  let digits := toString n
  String.ofList (List.replicate (width - digits.length) '0') ++ digits

/-- Days from the first of March of year 0 to the first of January 1970. -/
def epochDay : Nat := 719468

/-- Days in 400 years. -/
def eraDays : Nat := 146097

/-- The year, month and day of a day counted from the start of 1970. Years are taken to begin in
March, so that a leap day is the last of its year. -/
def date (day : Nat) : Nat × Nat × Nat :=
  let era := (day + epochDay) / eraDays
  let dayOfEra := (day + epochDay) % eraDays
  let yearOfEra := (dayOfEra - dayOfEra / 1460 + dayOfEra / 36524 - dayOfEra / 146096) / 365
  let dayOfYear := dayOfEra - (365 * yearOfEra + yearOfEra / 4 - yearOfEra / 100)
  let month := (5 * dayOfYear + 2) / 153
  let year := 400 * era + yearOfEra
  (if month < 10 then year else year + 1, if month < 10 then month + 3 else month - 9,
    dayOfYear - (153 * month + 2) / 5 + 1)

/-- The text of a number of milliseconds since the start of 1970. -/
def text (milliseconds : Nat) : String :=
  let seconds := milliseconds / 1000
  let (year, month, day) := date (seconds / 86400)
  padded 4 year ++ "-" ++ padded 2 month ++ "-" ++ padded 2 day ++ "T" ++
    padded 2 (seconds / 3600 % 24) ++ ":" ++ padded 2 (seconds / 60 % 60) ++ ":" ++
    padded 2 (seconds % 60) ++ "." ++ padded 3 (milliseconds % 1000) ++ "Z"

end TypedClient.Clock
