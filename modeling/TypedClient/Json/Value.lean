import TypedClient.Decimal.Shortest

/-! JSON values and their texts. An object keeps its entries in order. -/

namespace TypedClient.Json

/-- A number is an integer, or a floating-point number when it was written with a fraction or an
exponent or does not fit 64 bits. -/
inductive Number
  | integer (n : Int)
  | float (x : Float)

inductive Value
  | null
  | bool (b : Bool)
  | number (n : Number)
  | string (s : String)
  | array (items : List Value)
  | object (entries : List (String × Value))

instance : Inhabited Value := ⟨.null⟩

/-- Sets an entry: a key that is present keeps its place and takes the new value. -/
def setEntry {α : Type} (key : String) (value : α) : List (String × α) → List (String × α)
  | [] => [(key, value)]
  | (k, v) :: rest => if k = key then (k, value) :: rest else (k, v) :: setEntry key value rest

/-- The entries as an object reads them, repeated keys merged. -/
def mergeEntries {α : Type} (entries : List (String × α)) : List (String × α) :=
  entries.foldl (fun merged (key, value) => setEntry key value merged) []

section Entries

variable {α : Type}

theorem keys_setEntry (key : String) (value : α) (map : List (String × α)) :
    (setEntry key value map).map Prod.fst =
      if key ∈ map.map Prod.fst then map.map Prod.fst else map.map Prod.fst ++ [key] := by
  induction map with
  | nil => rfl
  | cons entry rest ih =>
    obtain ⟨k, v⟩ := entry
    by_cases hk : k = key
    · simp [setEntry, hk]
    · rw [setEntry, if_neg hk, List.map_cons, ih]
      by_cases hrest : key ∈ rest.map Prod.fst
      · simp [hrest]
      · simp [hrest, Ne.symm hk]

theorem nodup_setEntry {key : String} {value : α} {map : List (String × α)}
    (h : (map.map Prod.fst).Nodup) : ((setEntry key value map).map Prod.fst).Nodup := by
  rw [keys_setEntry]
  split
  · exact h
  · next hkey =>
    refine List.nodup_append.mpr ⟨h, by simp, fun a ha b hb => ?_⟩
    rintro rfl
    exact hkey (List.mem_singleton.mp hb ▸ ha)

/-- A key that is not there yet comes last. -/
theorem setEntry_of_notMem {key : String} {map : List (String × α)} (h : key ∉ map.map Prod.fst)
    (value : α) : setEntry key value map = map ++ [(key, value)] := by
  induction map with
  | nil => rfl
  | cons entry rest ih =>
    rw [List.map_cons, List.mem_cons, not_or] at h
    rw [setEntry, if_neg (Ne.symm h.1), ih h.2, List.cons_append]

theorem nodup_mergeEntries (entries : List (String × α)) :
    ((mergeEntries entries).map Prod.fst).Nodup := by
  have hfold : ∀ merged : List (String × α), (merged.map Prod.fst).Nodup →
      ((entries.foldl (fun merged (key, value) => setEntry key value merged) merged).map
        Prod.fst).Nodup := by
    induction entries with
    | nil => exact fun merged h => h
    | cons entry rest ih => exact fun merged h => ih _ (nodup_setEntry h)
  exact hfold [] (by simp)

/-- Entries with keys of their own are added behind those that are there. -/
theorem foldl_setEntry {merged entries : List (String × α)}
    (h : ((merged ++ entries).map Prod.fst).Nodup) :
    entries.foldl (fun merged (key, value) => setEntry key value merged) merged =
      merged ++ entries := by
  induction entries generalizing merged with
  | nil => simp
  | cons entry rest ih =>
    obtain ⟨key, value⟩ := entry
    have hnew : key ∉ merged.map Prod.fst := by
      rw [List.map_append, List.map_cons, List.nodup_append] at h
      exact fun hkey => h.2.2 key hkey key (by simp) rfl
    have hrest : merged ++ (key, value) :: rest = (merged ++ [(key, value)]) ++ rest := by simp
    rw [List.foldl_cons, hrest, ← ih (hrest ▸ h), ← setEntry_of_notMem hnew]

/-- Entries with distinct keys stay as they are. -/
theorem mergeEntries_of_nodup {entries : List (String × α)} (h : (entries.map Prod.fst).Nodup) :
    mergeEntries entries = entries := foldl_setEntry h

end Entries

namespace Number

/-- The digits of a floating-point number: plain, with a fraction, while its first digit stands
between ten to the minus fifth and ten to the fifteenth, else with a signed exponent. -/
def layout (digits : List Char) (exponent : Int) : List Char :=
  if digits.isEmpty then ['0', '.', '0']
  else if 0 ≤ exponent && exponent < 16 then
    let whole := exponent.toNat + 1
    let padded := digits ++ List.replicate (whole - digits.length) '0'
    let fraction := padded.drop whole
    padded.take whole ++ '.' :: (if fraction.isEmpty then ['0'] else fraction)
  else if -5 ≤ exponent && exponent < 0 then
    '0' :: '.' :: (List.replicate ((-exponent).toNat - 1) '0' ++ digits)
  else
    let fraction := digits.drop 1
    digits.take 1 ++ (if fraction.isEmpty then [] else '.' :: fraction) ++
      'e' :: (if exponent < 0 then '-' else '+') :: Nat.toDigits 10 exponent.natAbs

/-- The text of a number. -/
def text : Number → String
  | integer n => toString n
  | float x =>
    let (negative, digits, exponent) := Decimal.shortest x
    String.ofList ((if negative then ['-'] else []) ++ layout digits exponent)

end Number

/-- A lower-case hexadecimal digit. -/
def hexDigit (n : Nat) : Char := Char.ofNat (if n < 10 then 48 + n else 87 + n)

/-- A character inside double quotes. -/
def escapeChar (c : Char) : List Char :=
  if c = '"' then ['\\', '"']
  else if c = '\\' then ['\\', '\\']
  else if c = '\x08' then ['\\', 'b']
  else if c = '\x0c' then ['\\', 'f']
  else if c = '\n' then ['\\', 'n']
  else if c = '\r' then ['\\', 'r']
  else if c = '\t' then ['\\', 't']
  else if c.toNat < 0x20 then ['\\', 'u', '0', '0', hexDigit (c.toNat / 16), hexDigit (c.toNat % 16)]
  else [c]

/-- A string in double quotes. -/
def quote (s : String) : String :=
  String.ofList ('"' :: (s.toList.flatMap escapeChar ++ ['"']))

namespace Value

mutual

/-- The text of a value without any space. -/
def compact : Value → String
  | null => "null"
  | bool b => if b then "true" else "false"
  | number n => n.text
  | string s => quote s
  | array items => "[" ++ ",".intercalate (compactItems items) ++ "]"
  | object entries => r"{" ++ ",".intercalate (compactEntries entries) ++ r"}"

def compactItems : List Value → List String
  | [] => []
  | item :: rest => item.compact :: compactItems rest

def compactEntries : List (String × Value) → List String
  | [] => []
  | (key, value) :: rest => (quote key ++ ":" ++ value.compact) :: compactEntries rest

end

/-- Parts on lines of their own inside brackets, or bare brackets when there are none. -/
def spread (opening closing : String) (depth : Nat) (parts : List String) : String :=
  if parts.isEmpty then opening ++ closing
  else
    let newline := "\n" ++ String.join (List.replicate depth "  ")
    opening ++ newline ++ "  " ++ ("," ++ newline ++ "  ").intercalate parts ++ newline ++ closing

mutual

/-- The text of a value with one entry per line, two spaces for each level. -/
def prettyAt (depth : Nat) : Value → String
  | null => "null"
  | bool b => if b then "true" else "false"
  | number n => n.text
  | string s => quote s
  | array items => spread "[" "]" depth (prettyItems (depth + 1) items)
  | object entries => spread r"{" r"}" depth (prettyEntries (depth + 1) entries)

def prettyItems (depth : Nat) : List Value → List String
  | [] => []
  | item :: rest => item.prettyAt depth :: prettyItems depth rest

def prettyEntries (depth : Nat) : List (String × Value) → List String
  | [] => []
  | (key, value) :: rest => (quote key ++ ": " ++ value.prettyAt depth) :: prettyEntries depth rest

end

/-- The text of a value with one entry per line. -/
def pretty (v : Value) : String := v.prettyAt 0

end Value

end TypedClient.Json
