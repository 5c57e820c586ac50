/-! Plain values of TOML: truth values, numbers, dates and times. None of them is read
here: of a date and a time it is checked that they exist, and a number keeps its digits
unread, so that only its outline is checked. -/

namespace TypedClient.Toml

def isHexDigit (c : Char) : Bool :=
  c.isDigit || ('a' ≤ c && c ≤ 'f') || ('A' ≤ c && c ≤ 'F')

/-- Whether a digit stands on both sides of every underscore; `behindDigit` tells what stands in
front of the text. -/
def underscoresJoin (digit : Char → Bool) : Bool → List Char → Bool
  | _, [] => true
  | behindDigit, '_' :: rest =>
    behindDigit && (rest.head?.map digit).getD false && underscoresJoin digit false rest
  | _, c :: rest => underscoresJoin digit (digit c) rest

/-- The digits of a number behind the mark of its base; there may be none. -/
def isBased (digit : Char → Bool) (s : List Char) : Bool :=
  s.all (fun c => digit c || c == '_') && underscoresJoin digit false s

/-- Decimal digits and underscores. Unless `zeros`, no zero stands in front of other digits. -/
def isCount (zeros : Bool) (s : List Char) : Bool :=
  let digits := s.filter Char.isDigit
  s.all (fun c => c.isDigit || c == '_') && !digits.isEmpty &&
    (zeros || s.head? != some '0' || digits.length == 1)

/-- The part before the first character that passes, and the part behind it if there is one. -/
def splitAt (p : Char → Bool) (s : List Char) : List Char × Option (List Char) :=
  match s.dropWhile (fun c => !p c) with
  | [] => (s, none)
  | _ :: rest => (s.takeWhile (fun c => !p c), some rest)

def isExponentMark (c : Char) : Bool := c == 'e' || c == 'E'

/-- The outline of a whole number behind its sign: digits, the first no zero in front of others.
Behind them only underscores are looked at, which stand between hexadecimal digits; a sign may take
the place of the digit before the first one. -/
def isInteger (signed : Bool) (s : List Char) : Bool :=
  s == ['0'] ||
    (!s.isEmpty && s.head? != some '0' && underscoresJoin isHexDigit signed s &&
      match s.dropWhile Char.isDigit with
      | [] => true
      | c :: rest => c == '_' && !rest.any fun c => c == '.' || isExponentMark c)

/-- The outline of a number with a fraction or an exponent, behind its sign. -/
def isFloat (signed : Bool) (s : List Char) : Bool :=
  let (mantissa, exponent) := splitAt isExponentMark s
  let (whole, fraction) := splitAt (· == '.') mantissa
  underscoresJoin Char.isDigit signed s && (fraction.isSome || exponent.isSome) &&
    isCount false whole && fraction.all (isCount true) &&
    exponent.all fun digits =>
      isCount true (match digits with
        | '+' :: rest => rest
        | '-' :: rest => rest
        | _ => digits)

/-- A number in any base, or one of the texts for infinity and for no number. -/
def isNumber (s : List Char) : Bool :=
  let decimal (signed : Bool) (body : List Char) : Bool :=
    body == ['i', 'n', 'f'] || body == ['n', 'a', 'n'] || isInteger signed body ||
      isFloat signed body
  match s with
  | '+' :: body => decimal true body
  | '-' :: body => decimal true body
  | '0' :: 'x' :: digits => isBased isHexDigit digits
  | '0' :: 'o' :: digits => isBased (fun c => '0' ≤ c && c ≤ '7') digits
  | '0' :: 'b' :: digits => isBased (fun c => c == '0' || c == '1') digits
  | _ => decimal false s

/-- The number that decimal digits write. -/
def number (digits : List Char) : Nat := digits.foldl (fun n c => n * 10 + (c.toNat - 48)) 0

/-- Exactly `count` digits at the front, as a number, and what follows them. -/
def fixedNumber (count : Nat) (s : List Char) : Option (Nat × List Char) :=
  let digits := s.take count
  if digits.length == count && digits.all Char.isDigit then some (number digits, s.drop count)
  else none

/-- The text behind a character that must stand here. -/
def expectChar (c : Char) : List Char → Option (List Char)
  | [] => none
  | x :: rest => if x = c then some rest else none

/-- The days of a month. -/
def monthDays (year month : Nat) : Nat :=
  if month == 2 then
    if year % 4 == 0 && (year % 100 != 0 || year % 400 == 0) then 29 else 28
  else if month == 4 || month == 6 || month == 9 || month == 11 then 30
  else 31

/-- The text behind a date. -/
def date (s : List Char) : Option (List Char) := do
  let (year, s) ← fixedNumber 4 s
  let (month, s) ← fixedNumber 2 (← expectChar '-' s)
  let (day, s) ← fixedNumber 2 (← expectChar '-' s)
  if 1 ≤ month && month ≤ 12 && 1 ≤ day && day ≤ monthDays year month then some s else none

/-- The text behind an hour and a minute. -/
def clock (s : List Char) : Option (List Char) := do
  let (hour, s) ← fixedNumber 2 s
  let (minute, s) ← fixedNumber 2 (← expectChar ':' s)
  if hour ≤ 23 && minute ≤ 59 then some s else none

/-- The text behind a time of day. Its seconds may be left out; a minute may have a leap second. -/
def time (s : List Char) : Option (List Char) := do
  match ← clock s with
  | ':' :: rest =>
    let (second, after) ← fixedNumber 2 rest
    if second ≤ 60 then
      match after with
      | '.' :: digits =>
        if (digits.head?.map Char.isDigit).getD false then some (digits.dropWhile Char.isDigit)
        else none
      | _ => some after
    else none
  | after => some after

/-- The text behind an offset from universal time, if one stands here. -/
def offset (s : List Char) : Option (List Char) :=
  match s with
  | [] => some []
  | sign :: rest =>
    if sign == 'Z' || sign == 'z' then some rest
    else if sign == '+' || sign == '-' then clock rest
    else none

def isDateTime (s : List Char) : Bool :=
  match date s with
  | some [] => true
  | some (mark :: rest) =>
    (mark == 'T' || mark == 't' || mark == ' ') && (time rest).bind offset == some []
  | none => time s == some []

/-- Whether a text is a number, a date or a time. -/
def isPlainValue (s : List Char) : Bool := isNumber s || isDateTime s

end TypedClient.Toml
