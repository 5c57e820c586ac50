import Mathlib.Data.List.TakeWhile
import TypedClient.Json.Token
import TypedClient.Json.Value

/-! Texts of tokens. Every token that is read from some text has a text of its own, from which it is
read back: a number with its digits, a string with its characters escaped where they have to be, and
an unreadable string with half of a surrogate pair. Behind a number the text must not go on with it. -/

namespace TypedClient.Json

/-! ### Numbers -/

/-- Digits, one at least. -/
structure AreDigits (ds : List Char) : Prop where
  ne_nil : ds ≠ []
  isDigit : ∀ d ∈ ds, d.isDigit = true

/-- A number as JSON has it. -/
structure Numeral.Valid (n : Numeral) : Prop where
  whole : AreDigits n.whole
  zero : n.whole.head? = some '0' → n.whole = ['0']
  fraction : ∀ ds ∈ n.fraction, AreDigits ds
  exponent : ∀ e ∈ n.exponent, AreDigits e.2

/-- Nothing that goes on with a number. -/
def Stops (rest : List Char) : Prop :=
  ∀ c ∈ rest.head?, c.isDigit = false ∧ c ≠ '.' ∧ c ≠ 'e' ∧ c ≠ 'E'

def fractionChars : Option (List Char) → List Char
  | none => []
  | some ds => '.' :: ds

def exponentChars : Option (Bool × List Char) → List Char
  | none => []
  | some (negative, ds) => 'e' :: (if negative then '-' else '+') :: ds

/-- The number as it may be written. -/
def Numeral.chars (n : Numeral) : List Char :=
  (if n.negative then ['-'] else []) ++
    (n.whole ++ (fractionChars n.fraction ++ exponentChars n.exponent))

section Numerals

variable {ds rest s : List Char}

theorem digits_append (h : AreDigits ds) (hrest : ∀ c ∈ rest.head?, c.isDigit = false) :
    digits (ds ++ rest) = some (ds, rest) := by
  have htake : rest.takeWhile Char.isDigit = [] := by
    cases rest with
    | nil => rfl
    | cons c rest => simp [hrest c rfl]
  have hdrop : rest.dropWhile Char.isDigit = rest := by
    cases rest with
    | nil => rfl
    | cons c rest => simp [hrest c rfl]
  have hne : ds.isEmpty = false := by simpa using h.ne_nil
  rw [digits, List.takeWhile_append_of_pos h.isDigit, List.dropWhile_append_of_pos h.isDigit, htake,
    hdrop, List.append_nil]
  simp [hne]

theorem areDigits_of_digits (h : digits s = some (ds, rest)) : AreDigits ds := by
  unfold digits at h
  dsimp only at h
  split at h
  · nomatch h
  · next hne =>
    obtain ⟨rfl, _⟩ := Prod.mk.inj (Option.some.inj h)
    exact ⟨by simpa using hne, fun d hd => List.mem_takeWhile_imp hd⟩

theorem fractionPart_append {fraction : Option (List Char)} (h : ∀ ds ∈ fraction, AreDigits ds)
    (hrest : ∀ c ∈ rest.head?, c.isDigit = false ∧ c ≠ '.') :
    fractionPart (fractionChars fraction ++ rest) = some (fraction, rest) := by
  cases fraction with
  | some ds =>
    have hdigits := digits_append (h ds rfl) fun c hc => (hrest c hc).1
    simp [fractionPart, fractionChars, hdigits]
  | none =>
    cases rest with
    | nil => rfl
    | cons c rest =>
      have hne : c ≠ '.' := (hrest c rfl).2
      simp only [fractionChars, List.nil_append, fractionPart]
      split
      · next heq => exact absurd (List.cons.inj heq).1 hne
      · rfl

theorem exponentPart_append {exponent : Option (Bool × List Char)}
    (h : ∀ e ∈ exponent, AreDigits e.2) (hrest : Stops rest) :
    exponentPart (exponentChars exponent ++ rest) = some (exponent, rest) := by
  cases exponent with
  | some e =>
    obtain ⟨negative, ds⟩ := e
    have hdigits := digits_append (h _ rfl) fun c hc => (hrest c hc).1
    cases negative <;> simp [exponentPart, exponentChars, hdigits]
  | none =>
    cases rest with
    | nil => rfl
    | cons c rest =>
      obtain ⟨_, _, hlower, hupper⟩ := hrest c rfl
      simp [exponentPart, exponentChars, hlower, hupper]

theorem wholeDigits_append {n : Numeral} (h : n.Valid) (hrest : ∀ c ∈ rest.head?, c.isDigit = false) :
    wholeDigits (n.whole ++ rest) = some (n.whole, rest) := by
  rw [wholeDigits, digits_append h.whole hrest]
  split
  · next heq =>
    obtain ⟨hwhole, _⟩ := Prod.mk.inj (Option.some.inj heq)
    have hzero := h.zero (by rw [hwhole]; rfl)
    rw [hwhole] at hzero
    nomatch hzero
  · rfl

theorem head_exponentChars {exponent : Option (Bool × List Char)} (hrest : Stops rest) :
    ∀ c ∈ (exponentChars exponent ++ rest).head?, c.isDigit = false ∧ c ≠ '.' := by
  intro c hc
  cases exponent with
  | none => exact ⟨(hrest c hc).1, (hrest c hc).2.1⟩
  | some e =>
    obtain rfl : 'e' = c := Option.some.inj hc
    decide

theorem head_fractionChars {fraction : Option (List Char)}
    (hrest : ∀ c ∈ rest.head?, c.isDigit = false) :
    ∀ c ∈ (fractionChars fraction ++ rest).head?, c.isDigit = false := by
  intro c hc
  cases fraction with
  | none => exact hrest c hc
  | some ds =>
    obtain rfl : '.' = c := Option.some.inj hc
    decide

/-- The sign at the front, and what follows it. -/
def signPart (s : List Char) : Bool × List Char :=
  match s with
  | '-' :: rest => (true, rest)
  | _ => (false, s)

theorem signPart_of_ne {c : Char} (hc : c ≠ '-') : signPart (c :: s) = (false, c :: s) := by
  unfold signPart
  split
  · next heq => exact absurd (List.cons.inj heq).1 hc
  · rfl

/-- A number is read part by part. -/
theorem numeral_eq_some_iff {n : Numeral} : numeral s = some (n, rest) ↔
    ∃ afterWhole afterFraction, (signPart s).1 = n.negative ∧
      wholeDigits (signPart s).2 = some (n.whole, afterWhole) ∧
      fractionPart afterWhole = some (n.fraction, afterFraction) ∧
      exponentPart afterFraction = some (n.exponent, rest) := by
  have hparts : numeral s = (wholeDigits (signPart s).2).bind fun whole =>
      (fractionPart whole.2).bind fun fraction =>
        (exponentPart fraction.2).map fun exponent =>
          (⟨(signPart s).1, whole.1, fraction.1, exponent.1⟩, exponent.2) := by
    simp only [Option.map_eq_bind]
    rfl
  rw [hparts]
  simp only [Option.bind_eq_some_iff, Option.map_eq_some_iff, Prod.mk.injEq]
  constructor
  · rintro ⟨⟨whole, afterWhole⟩, hwhole, ⟨fraction, afterFraction⟩, hfraction, ⟨exponent, after⟩,
      hexponent, rfl, rfl⟩
    exact ⟨afterWhole, afterFraction, rfl, hwhole, hfraction, hexponent⟩
  · rintro ⟨afterWhole, afterFraction, hsign, hwhole, hfraction, hexponent⟩
    exact ⟨_, hwhole, _, hfraction, _, hexponent, by rw [hsign], rfl⟩

/-- A number is read back, whatever does not go on with it. -/
theorem numeral_append {n : Numeral} (h : n.Valid) (hrest : Stops rest) :
    numeral (n.chars ++ rest) = some (n, rest) := by
  have hsign : signPart (n.chars ++ rest) = (n.negative,
      n.whole ++ (fractionChars n.fraction ++ (exponentChars n.exponent ++ rest))) := by
    cases hnegative : n.negative with
    | true => simp [Numeral.chars, hnegative, signPart]
    | false =>
      cases hwhole : n.whole with
      | nil => exact absurd hwhole h.whole.ne_nil
      | cons d ds =>
        have hd : d.isDigit = true := h.whole.isDigit d (by simp [hwhole])
        have hne : d ≠ '-' := by
          rintro rfl
          nomatch hd
        simp [Numeral.chars, hnegative, hwhole, signPart_of_ne hne]
  rw [numeral_eq_some_iff, hsign]
  refine ⟨_, _, rfl, wholeDigits_append h ?_, fractionPart_append h.fraction ?_,
    exponentPart_append h.exponent hrest⟩
  · exact head_fractionChars fun c hc => (head_exponentChars hrest c hc).1
  · exact head_exponentChars hrest

theorem valid_of_numeral {n : Numeral} (h : numeral s = some (n, rest)) : n.Valid := by
  obtain ⟨afterWhole, afterFraction, _, hwhole, hfraction, hexponent⟩ := numeral_eq_some_iff.mp h
  refine ⟨?_, fun hzero => ?_, fun ds hds => ?_, fun e he => ?_⟩
  · unfold wholeDigits at hwhole
    split at hwhole
    · nomatch hwhole
    · exact areDigits_of_digits hwhole
  · unfold wholeDigits at hwhole
    split at hwhole
    · nomatch hwhole
    · next hlong =>
      obtain ⟨ds, hds⟩ := List.head?_eq_some_iff.mp hzero
      rw [hds] at hwhole ⊢
      cases ds with
      | nil => rfl
      | cons d ds => exact absurd hwhole (hlong _ _ _)
  · rw [Option.mem_def.mp hds] at hfraction
    unfold fractionPart at hfraction
    split at hfraction
    · obtain ⟨⟨ds', after⟩, hdigits, heq⟩ := Option.map_eq_some_iff.mp hfraction
      obtain ⟨hds', _⟩ := Prod.mk.inj heq
      exact Option.some.inj hds' ▸ areDigits_of_digits hdigits
    · nomatch hfraction
  · rw [Option.mem_def.mp he] at hexponent
    unfold exponentPart at hexponent
    split at hexponent
    · split at hexponent
      · obtain ⟨⟨ds', after⟩, hdigits, heq⟩ := Option.map_eq_some_iff.mp hexponent
        obtain ⟨he', _⟩ := Prod.mk.inj heq
        exact Option.some.inj he' ▸ areDigits_of_digits hdigits
      · nomatch hexponent
    · nomatch hexponent

end Numerals

/-! ### Strings -/

/-- The piece as which a character is read back: a control character without a short escape is a unit,
and every other character is itself. -/
def pieceOf (c : Char) : Piece :=
  if c.toNat < 0x20 ∧ c ∉ ['\x08', '\x0c', '\n', '\r', '\t'] then .unit c.toNat else .char c

/-- The string as it may be written. -/
def textChars : Text → List Char
  | some cs => '"' :: (cs.flatMap escapeChar ++ ['"'])
  | none => ['"', '\\', 'u', 'd', '8', '0', '0', '"']

section Strings

variable {rest : List Char}

theorem hexUnit_hexDigit : ∀ n < 32,
    hexUnit '0' '0' (hexDigit (n / 16)) (hexDigit (n % 16)) = some n := by decide

theorem stringPieces_shortEscape {e c : Char} (he : shortEscape e = some c) (hu : e ≠ 'u') :
    stringPieces ('\\' :: e :: rest) = (stringPieces rest).map fun p => (.char c :: p.1, p.2) := by
  rw [stringPieces]
  · rw [he, Option.map_eq_bind]
    rfl
  · exact fun _ _ _ _ _ heq _ => hu heq

/-- Each character is read back as its piece. -/
theorem stringPieces_escapeChar (c : Char) :
    stringPieces (escapeChar c ++ rest) = (stringPieces rest).map fun p => (pieceOf c :: p.1, p.2) := by
  unfold escapeChar
  -- Seven characters have an escape of their own.
  iterate 7
    split
    · subst_vars
      exact stringPieces_shortEscape rfl (by decide)
  split
  · next hquote hslash hb hf hn hr ht hcontrol =>
    have hpiece : pieceOf c = .unit c.toNat := if_pos ⟨hcontrol, by simp [hb, hf, hn, hr, ht]⟩
    simp only [List.cons_append, List.nil_append, stringPieces, hexUnit_hexDigit c.toNat hcontrol,
      hpiece, Option.map_eq_bind]
    rfl
  · next hquote hslash _ _ _ _ _ hcontrol =>
    have hpiece : pieceOf c = .char c := if_neg fun h => hcontrol h.1
    rw [List.singleton_append, stringPieces]
    · rw [if_neg hcontrol, hpiece, Option.map_eq_bind]
      rfl
    · exact hquote
    · exact fun _ _ _ _ _ heq _ => hslash heq
    · exact fun _ _ heq _ => hslash heq

theorem stringPieces_flatMap (cs : List Char) :
    stringPieces (cs.flatMap escapeChar ++ '"' :: rest) = some (cs.map pieceOf, rest) := by
  induction cs with
  | nil => rw [List.flatMap_nil, List.nil_append, stringPieces]; rfl
  | cons c cs ih =>
    rw [List.flatMap_cons, List.append_assoc, stringPieces_escapeChar, ih]
    rfl

/-- A unit below the surrogates is a character of its own. -/
theorem joinPieces_unit {n : Nat} (hn : n < 0xD800) (pieces : List Piece) :
    joinPieces (.unit n :: pieces) = (joinPieces pieces).map (Char.ofNat n :: ·) := by
  have hhigh : ¬0xD800 ≤ n := Nat.not_le.mpr hn
  have hlow : ¬0xDC00 ≤ n := by omega
  rcases pieces with _ | ⟨c | low, pieces⟩
  · simp [joinPieces, hhigh]
  · simp [joinPieces, hhigh]
  · rw [joinPieces]
    simp [hhigh, hlow]

theorem joinPieces_map_pieceOf (cs : List Char) : joinPieces (cs.map pieceOf) = some cs := by
  induction cs with
  | nil => rfl
  | cons c cs ih =>
    rw [List.map_cons]
    by_cases hunit : c.toNat < 0x20 ∧ c ∉ ['\x08', '\x0c', '\n', '\r', '\t']
    · rw [pieceOf, if_pos hunit, joinPieces_unit (by omega), ih, Char.ofNat_toNat]
      rfl
    · rw [pieceOf, if_neg hunit, joinPieces, ih]
      rfl

end Strings

/-! ### Tokens -/

/-- A token that is read from some text. -/
def Token.Valid : Token → Prop
  | .number n => n.Valid
  | .broken => False
  | _ => True

/-- A token as it may be written. -/
def Token.chars : Token → List Char
  | .openBracket => ['[']
  | .closeBracket => [']']
  | .openBrace => ['{']
  | .closeBrace => ['}']
  | .comma => [',']
  | .colon => [':']
  | .null => ['n', 'u', 'l', 'l']
  | .bool true => ['t', 'r', 'u', 'e']
  | .bool false => ['f', 'a', 'l', 's', 'e']
  | .number n => n.chars
  | .string s => textChars s
  | .broken => []

section Tokens

variable {rest s : List Char} {token : Token}

theorem nextToken_textChars (s : Text) : nextToken (textChars s ++ rest) = some (.string s, rest) := by
  cases s with
  | none =>
    have hpieces : stringPieces ('\\' :: 'u' :: 'd' :: '8' :: '0' :: '0' :: '"' :: rest) =
        some ([.unit 0xD800], rest) := by
      rw [stringPieces, stringPieces]
      rfl
    have hchars : textChars none ++ rest =
        '"' :: '\\' :: 'u' :: 'd' :: '8' :: '0' :: '0' :: '"' :: rest := rfl
    rw [hchars, nextToken, hpieces]
    rfl
  | some cs =>
    have hchars : textChars (some cs) ++ rest = '"' :: (cs.flatMap escapeChar ++ '"' :: rest) := by
      simp [textChars]
    rw [hchars, nextToken, stringPieces_flatMap, Option.map_some]
    simp only [joinPieces_map_pieceOf]

/-- A number starts with a sign or a digit. -/
theorem head_chars {n : Numeral} (h : n.Valid) :
    ∃ c cs, n.chars = c :: cs ∧ (c = '-' ∨ c.isDigit = true) := by
  cases hnegative : n.negative with
  | true => exact ⟨'-', _, by simp [Numeral.chars, hnegative]; rfl, .inl rfl⟩
  | false =>
    cases hwhole : n.whole with
    | nil => exact absurd hwhole h.whole.ne_nil
    | cons d ds =>
      exact ⟨d, _, by simp [Numeral.chars, hnegative, hwhole]; rfl,
        .inr (h.whole.isDigit d (by simp [hwhole]))⟩

theorem nextToken_of_number {c : Char} (hc : c = '-' ∨ c.isDigit = true) :
    nextToken (c :: s) = (numeral (c :: s)).map fun p => (.number p.1, p.2) := by
  unfold nextToken
  split
  case h_11 => rfl
  all_goals
    next heq =>
      obtain ⟨rfl, _⟩ := List.cons.inj heq
      exact absurd hc (by decide)

/-- A token that is no number ends where its text ends. -/
theorem nextToken_append_of_ne (h : token.Valid) (hnumber : ∀ n, token ≠ .number n) :
    nextToken (token.chars ++ rest) = some (token, rest) := by
  cases token with
  | number n => exact absurd rfl (hnumber n)
  | string s => exact nextToken_textChars s
  | broken => exact h.elim
  | bool b => cases b <;> rfl
  | _ => rfl

/-- A token is read back, whatever does not go on with it. -/
theorem nextToken_append (h : token.Valid) (hrest : Stops rest) :
    nextToken (token.chars ++ rest) = some (token, rest) := by
  cases token with
  | number n =>
    obtain ⟨c, cs, hchars, hc⟩ := head_chars h
    rw [Token.chars, hchars, List.cons_append, nextToken_of_number hc, ← List.cons_append, ← hchars,
      numeral_append h hrest]
    rfl
  | _ => exact nextToken_append_of_ne h nofun

theorem valid_of_nextToken (h : nextToken s = some (token, rest)) : token.Valid := by
  unfold nextToken at h
  split at h
  case h_10 =>
    obtain ⟨p, _, heq⟩ := Option.map_eq_some_iff.mp h
    obtain ⟨rfl, _⟩ := Prod.mk.inj heq
    trivial
  case h_11 =>
    obtain ⟨p, hp, heq⟩ := Option.map_eq_some_iff.mp h
    obtain ⟨rfl, _⟩ := Prod.mk.inj heq
    exact valid_of_numeral hp
  all_goals
    obtain ⟨rfl, _⟩ := Prod.mk.inj (Option.some.inj h)
    trivial

theorem valid_of_mem_tokensWithin {fuel : Nat} (h : token ∈ tokensWithin fuel s) :
    token = .broken ∨ token.Valid := by
  induction fuel generalizing s with
  | zero => nomatch h
  | succ fuel ih =>
    rw [tokensWithin] at h
    split at h
    · nomatch h
    · split at h
      · exact .inl (List.mem_singleton.mp h)
      · next hnext =>
        rcases List.mem_cons.mp h with rfl | h
        · exact .inr (valid_of_nextToken hnext)
        · exact ih h

/-- The tokens as they may be written, one space before each. -/
def tokenChars (toks : List Token) : List Char := toks.flatMap fun token => ' ' :: token.chars

theorem stops_tokenChars (toks : List Token) : Stops (tokenChars toks) := by
  intro c hc
  cases toks with
  | nil => nomatch hc
  | cons token toks =>
    obtain rfl : ' ' = c := Option.some.inj hc
    decide

/-- No token starts with a space. -/
theorem chars_eq_cons (h : token.Valid) :
    ∃ c cs, token.chars = c :: cs ∧ isSpace c = false := by
  cases token with
  | number n =>
    obtain ⟨c, cs, hchars, hc⟩ := head_chars h
    refine ⟨c, cs, hchars, ?_⟩
    cases hspace : isSpace c with
    | false => rfl
    | true =>
      have hspaces : c = ' ' ∨ c = '\n' ∨ c = '\t' ∨ c = '\r' := by
        simpa [isSpace, or_assoc] using hspace
      rcases hspaces with rfl | rfl | rfl | rfl <;> exact absurd hc (by decide)
  | string s => cases s <;> exact ⟨_, _, rfl, rfl⟩
  | broken => exact h.elim
  | bool b => cases b <;> exact ⟨_, _, rfl, rfl⟩
  | _ => exact ⟨_, _, rfl, rfl⟩

/-- A token that is read at the front takes one unit of fuel. -/
theorem tokensWithin_chars (h : token.Valid)
    (hnext : nextToken (token.chars ++ rest) = some (token, rest)) (fuel : Nat) :
    tokensWithin (fuel + 1) (token.chars ++ rest) = token :: tokensWithin fuel rest := by
  obtain ⟨c, cs, hchars, hc⟩ := chars_eq_cons h
  rw [hchars, List.cons_append] at hnext ⊢
  rw [tokensWithin, List.dropWhile_cons_of_neg (by simp [hc])]
  dsimp only
  rw [hnext]

theorem tokensWithin_spaces {gap : List Char} (h : ∀ c ∈ gap, isSpace c = true) (fuel : Nat) :
    tokensWithin fuel (gap ++ rest) = tokensWithin fuel rest := by
  cases fuel with
  | zero => rfl
  | succ fuel => rw [tokensWithin, tokensWithin, List.dropWhile_append_of_pos h]

/-- Tokens are read back from their text. -/
theorem tokensWithin_tokenChars {toks : List Token} (h : ∀ token ∈ toks, token.Valid) {fuel : Nat}
    (hfuel : toks.length ≤ fuel) : tokensWithin fuel (tokenChars toks) = toks := by
  induction toks generalizing fuel with
  | nil => cases fuel <;> rfl
  | cons token toks ih =>
    obtain ⟨hfirst, hrest⟩ := List.forall_mem_cons.mp h
    cases fuel with
    | zero => nomatch hfuel
    | succ fuel =>
      have htext : tokenChars (token :: toks) = [' '] ++ (token.chars ++ tokenChars toks) := rfl
      have hnext := nextToken_append hfirst (stops_tokenChars toks)
      rw [htext, tokensWithin_spaces (by simp [isSpace]), tokensWithin_chars hfirst hnext,
        ih hrest (Nat.le_of_succ_le_succ hfuel)]

theorem tokens_tokenChars {toks : List Token} (h : ∀ token ∈ toks, token.Valid) :
    tokens (tokenChars toks) = toks := by
  refine tokensWithin_tokenChars h ?_
  induction toks with
  | nil => exact Nat.zero_le _
  | cons token toks ih =>
    have hlength := ih (List.forall_mem_cons.mp h).2
    simp only [tokenChars, List.flatMap_cons, List.length_append, List.length_cons] at hlength ⊢
    omega

end Tokens

end TypedClient.Json
