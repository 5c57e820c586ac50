/-! The tokens of a JSON text. Where the text stops being JSON the tokens end with
`broken`, and nothing behind that place is looked at. -/

namespace TypedClient.Json

/-- A number as written: sign, digits before and after the point, and the exponent with its
sign. -/
structure Numeral where
  negative : Bool
  whole : List Char
  fraction : Option (List Char)
  exponent : Option (Bool × List Char)

/-- The characters of a string, or nothing when an escape is half of a surrogate pair. -/
abbrev Text := Option (List Char)

inductive Token
  | openBracket | closeBracket | openBrace | closeBrace | comma | colon
  | null | bool (b : Bool)
  | number (n : Numeral)
  | string (s : Text)
  | broken

/-- The characters that may stand between tokens. -/
def isSpace (c : Char) : Bool := c == ' ' || c == '\n' || c == '\t' || c == '\r'

/-- The value of a hexadecimal digit of either case. -/
def hexValue (c : Char) : Option Nat :=
  if c.isDigit then some (c.toNat - 48)
  else if 'a' ≤ c && c ≤ 'f' then some (c.toNat - 87)
  else if 'A' ≤ c && c ≤ 'F' then some (c.toNat - 55)
  else none

/-- The 16-bit unit that four hexadecimal digits write. -/
def hexUnit (a b c d : Char) : Option Nat := do
  return (((← hexValue a) * 16 + (← hexValue b)) * 16 + (← hexValue c)) * 16 + (← hexValue d)

/-- A piece of a string: a character, or a 16-bit unit written as an escape. -/
inductive Piece
  | char (c : Char)
  | unit (n : Nat)

/-- The character behind a backslash, for the short escapes. -/
def shortEscape (c : Char) : Option Char :=
  match c with
  | '"' => some '"'
  | '\\' => some '\\'
  | '/' => some '/'
  | 'b' => some '\x08'
  | 'f' => some '\x0c'
  | 'n' => some '\n'
  | 'r' => some '\r'
  | 't' => some '\t'
  | _ => none

/-- The pieces up to the closing quote, and what follows it. -/
def stringPieces : List Char → Option (List Piece × List Char)
  | [] => none
  | '"' :: rest => some ([], rest)
  | '\\' :: 'u' :: a :: b :: c :: d :: rest => do
    let n ← hexUnit a b c d
    let (pieces, after) ← stringPieces rest
    return (.unit n :: pieces, after)
  | '\\' :: c :: rest => do
    let e ← shortEscape c
    let (pieces, after) ← stringPieces rest
    return (.char e :: pieces, after)
  | c :: rest =>
    if c.toNat < 0x20 then none
    else do
      let (pieces, after) ← stringPieces rest
      return (.char c :: pieces, after)

/-- The characters of the pieces. Two units make one character when they are a high and a low
surrogate; a surrogate of any other kind makes the text unreadable. -/
def joinPieces : List Piece → Text
  | [] => some []
  | .char c :: rest => (joinPieces rest).map (c :: ·)
  | .unit high :: .unit low :: rest =>
    if 0xD800 ≤ high && high < 0xDC00 then
      if 0xDC00 ≤ low && low < 0xE000 then
        (joinPieces rest).map (Char.ofNat (0x10000 + (high - 0xD800) * 0x400 + (low - 0xDC00)) :: ·)
      else none
    else if 0xDC00 ≤ high && high < 0xE000 then none
    else (joinPieces (.unit low :: rest)).map (Char.ofNat high :: ·)
  | .unit n :: rest =>
    if 0xD800 ≤ n && n < 0xE000 then none else (joinPieces rest).map (Char.ofNat n :: ·)

/-- The digits at the front, when there is one, and what follows them. -/
def digits (s : List Char) : Option (List Char × List Char) :=
  let front := s.takeWhile Char.isDigit
  if front.isEmpty then none else some (front, s.dropWhile Char.isDigit)

/-- The digits before the point: a zero stands alone. -/
def wholeDigits (s : List Char) : Option (List Char × List Char) :=
  match digits s with
  | some ('0' :: _ :: _, _) => none
  | other => other

/-- The fraction, if a point opens one; a point without a digit is an error. -/
def fractionPart (s : List Char) : Option (Option (List Char) × List Char) :=
  match s with
  | '.' :: rest => (digits rest).map fun (ds, after) => (some ds, after)
  | _ => some (none, s)

/-- The exponent, if there is one; a mark without a digit is an error. -/
def exponentPart (s : List Char) : Option (Option (Bool × List Char) × List Char) :=
  match s with
  | c :: rest =>
    if c == 'e' || c == 'E' then
      let (negative, unsigned) := match rest with
        | '+' :: more => (false, more)
        | '-' :: more => (true, more)
        | _ => (false, rest)
      (digits unsigned).map fun (ds, after) => (some (negative, ds), after)
    else some (none, s)
  | [] => some (none, s)

/-- The number at the front, and what follows it. -/
def numeral (s : List Char) : Option (Numeral × List Char) := do
  let (negative, unsigned) := match s with
    | '-' :: rest => (true, rest)
    | _ => (false, s)
  let (whole, afterWhole) ← wholeDigits unsigned
  let (fraction, afterFraction) ← fractionPart afterWhole
  let (exponent, after) ← exponentPart afterFraction
  return (⟨negative, whole, fraction, exponent⟩, after)

/-- The token at the front of a text that starts with no space, and what follows it. -/
def nextToken (s : List Char) : Option (Token × List Char) :=
  match s with
  | '[' :: rest => some (.openBracket, rest)
  | ']' :: rest => some (.closeBracket, rest)
  | '{' :: rest => some (.openBrace, rest)
  | '}' :: rest => some (.closeBrace, rest)
  | ',' :: rest => some (.comma, rest)
  | ':' :: rest => some (.colon, rest)
  | 'n' :: 'u' :: 'l' :: 'l' :: rest => some (.null, rest)
  | 't' :: 'r' :: 'u' :: 'e' :: rest => some (.bool true, rest)
  | 'f' :: 'a' :: 'l' :: 's' :: 'e' :: rest => some (.bool false, rest)
  | '"' :: rest => (stringPieces rest).map fun (pieces, after) => (.string (joinPieces pieces), after)
  | _ => (numeral s).map fun (n, after) => (.number n, after)

/-- The tokens of a text, as far as `fuel` reaches. Each token takes a character at least, so the
length of the text is fuel enough. -/
def tokensWithin : Nat → List Char → List Token
  | 0, _ => []
  | fuel + 1, s =>
    match s.dropWhile isSpace with
    | [] => []
    | c :: rest =>
      match nextToken (c :: rest) with
      | none => [.broken]
      | some (token, after) => token :: tokensWithin fuel after

/-- The tokens of a text. -/
def tokens (s : List Char) : List Token := tokensWithin s.length s

end TypedClient.Json
