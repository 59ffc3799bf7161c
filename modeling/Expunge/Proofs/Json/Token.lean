import Expunge.Json.Token
import Expunge.Json.Writer
import Expunge.Proofs.Text.Digits

/-!
# Tokens of written trees

What the writer puts down for a number, a truth value, `null` or a string is cut off again as one
token, and that token is the one written: `readNumeral?_toText` and `ofWord_toText` for words,
`tokensFrom_quote` for strings. A word is cut off where a symbol follows that is of no word
(`Ends`); after a string anything may follow.
-/

namespace Expunge

/-! ## Numerals -/

namespace Json

/-- The digits of a number are read as the number. -/
theorem readWhole?_ofNat (n : Nat) : readWhole? (Text.ofNat n) = some n := by
  rw [readWhole?.eq_def]
  split
  · next c rest htext =>
    -- a zero in front is the whole text
    obtain ⟨d, ds, hdigits⟩ := List.exists_cons_of_ne_nil (Text.digits_ne_nil n)
    rw [Text.ofNat, hdigits, Text.ofDigitList, List.map_cons] at htext
    obtain ⟨hd, hds⟩ := List.cons_eq_cons.1 htext
    rcases Text.head_digits hdigits with hzero | rfl
    · exact absurd (congrArg Fin.val (Digit.toChar_injective (hd.trans (show '0' = Digit.toChar 0
        from rfl)))) hzero
    · cases hds
  · exact Text.readNat?_ofNat n

/-- The fraction of a numeral as text. -/
def fractionText (fraction : List Digit) : List Char :=
  if fraction.isEmpty then [] else '.' :: Text.ofDigitList fraction

/-- The exponent of a numeral as text. -/
def exponentText : Option Int → List Char
  | none => []
  | some e => 'e' :: (if e < 0 then '-' else '+') :: Text.ofNat e.natAbs

theorem isDigit_head?_exponentText (exponent : Option Int) :
    ∀ c ∈ (exponentText exponent).head?, c.isDigit = false := by
  cases exponent with
  | none => simp [exponentText]
  | some e =>
    rintro c hc
    cases hc
    rfl

theorem readFraction?_text (fraction : List Digit) (exponent : Option Int) :
    readFraction? (fractionText fraction ++ exponentText exponent) =
      some (fraction, exponentText exponent) := by
  cases fraction with
  | nil => cases exponent <;> rfl
  | cons d ds =>
    obtain ⟨htake, hdrop⟩ :=
      Text.takeWhile_ofDigitList_append (d :: ds) (isDigit_head?_exponentText exponent)
    show readFraction? ('.' :: (Text.ofDigitList (d :: ds) ++ exponentText exponent)) = _
    rw [readFraction?]
    simp only [htake, hdrop, Text.readDigits?_ofDigitList]
    rfl

theorem readExponent?_text (exponent : Option Int) :
    readExponent? (exponentText exponent) = some exponent := by
  cases exponent with
  | none => rfl
  | some e =>
    rw [exponentText, readExponent?, if_pos (.inl rfl), Text.readInt?]
    by_cases he : e < 0
    · simp only [he, if_true, Text.readSign, Text.readNat?_ofNat, Option.map_some, Text.signed]
      congr 2
      omega
    · simp only [he, if_false, Text.readSign, Text.readNat?_ofNat, Option.map_some, Text.signed,
        Bool.false_eq_true]
      congr 2
      omega

end Json

/-- A numeral as text: its sign, its integer, its fraction and its exponent. -/
theorem Numeral.toText_eq (n : Numeral) :
    n.toText = (if n.negative then ['-'] else []) ++
      (Text.ofNat n.whole ++ (Json.fractionText n.fraction ++ Json.exponentText n.exponent)) := by
  rw [toText, List.append_assoc, List.append_assoc]
  cases n.exponent <;> rfl

theorem Numeral.toText_ne_nil (n : Numeral) : n.toText ≠ [] := by
  obtain ⟨c, digits, hdigits, _⟩ := Text.exists_cons_ofNat n.whole
  simp [toText_eq, hdigits]

namespace Json

theorem isDigit_head?_fraction (fraction : List Digit) (exponent : Option Int) :
    ∀ c ∈ (fractionText fraction ++ exponentText exponent).head?, c.isDigit = false := by
  cases fraction with
  | nil => exact isDigit_head?_exponentText exponent
  | cons d ds =>
    rintro c hc
    cases hc
    rfl

/-- The text of a numeral is read as the numeral. -/
theorem readNumeral?_toText (n : Numeral) : readNumeral? n.toText = some n := by
  obtain ⟨c, digits, hdigits, hdigit⟩ := Text.exists_cons_ofNat n.whole
  have hminus : c ≠ '-' := by
    rintro rfl
    cases hdigit
  obtain ⟨htake, hdrop⟩ := Text.takeWhile_ofDigitList_append (Text.digits n.whole)
    (isDigit_head?_fraction n.fraction n.exponent)
  rw [readNumeral?.eq_def]
  split
  next negative unsigned heq =>
    have hparts : negative = n.negative ∧ unsigned =
        Text.ofNat n.whole ++ (fractionText n.fraction ++ exponentText n.exponent) := by
      rw [Numeral.toText_eq, hdigits] at heq
      cases hnegative : n.negative with
      | true =>
        rw [hnegative] at heq
        cases heq
        exact ⟨rfl, by rw [hdigits]; rfl⟩
      | false =>
        rw [hnegative] at heq
        split at heq
        · next h => exact absurd (List.cons_eq_cons.1 h).1 hminus
        · cases heq
          exact ⟨rfl, by rw [hdigits]; rfl⟩
    obtain ⟨rfl, rfl⟩ := hparts
    have hwhole := readWhole?_ofNat n.whole
    rw [Text.ofNat] at hwhole ⊢
    simp only [htake, hdrop, hwhole, readFraction?_text, readExponent?_text, Option.bind_eq_bind,
      Option.bind_some, Option.pure_def]

/-! ## Words -/

/-- A text that starts with nothing that goes on with a word. -/
def Ends (rest : List Text.Symbol) : Prop :=
  ∀ symbol ∈ rest.head?, isWordSymbol symbol = false

theorem ends_nil : Ends [] := by
  simp [Ends]

theorem ends_cons {symbol : Text.Symbol} {rest : List Text.Symbol}
    (h : isWordSymbol symbol = false) : Ends (symbol :: rest) := by
  rintro _ heq
  cases heq
  exact h

/-- The characters of a numeral's text belong to words. -/
theorem isWordSymbol_of_mem_toText {n : Numeral} {c : Char} (h : c ∈ n.toText) :
    isWordSymbol (some c) = true := by
  have hdigit (d : Digit) : isWordSymbol (some d.toChar) = true := by
    revert d
    decide
  have hdigits {ds : List Digit} (hc : c ∈ Text.ofDigitList ds) : isWordSymbol (some c) = true := by
    obtain ⟨d, _, rfl⟩ := List.mem_map.1 hc
    exact hdigit d
  rw [Numeral.toText_eq, List.mem_append, List.mem_append, List.mem_append] at h
  rcases h with h | h | h | h
  · split at h
    · rw [List.mem_singleton.1 h]
      decide
    · cases h
  · exact hdigits h
  · rw [fractionText] at h
    split at h
    · cases h
    · rcases List.mem_cons.1 h with rfl | h
      · decide
      · exact hdigits h
  · cases hexponent : n.exponent with
    | none =>
      rw [hexponent] at h
      cases h
    | some e =>
      rw [hexponent, exponentText, List.mem_cons, List.mem_cons] at h
      rcases h with rfl | rfl | h
      · decide
      · split <;> decide
      · exact hdigits h

/-- A symbol of words starts a word between tokens. -/
theorem enter_of_isWordSymbol {c : Char} (h : isWordSymbol (some c) = true) :
    enter (some c) = (none, .word [c]) := by
  simp only [isWordSymbol, Bool.not_eq_true', Bool.or_eq_false_iff, Option.isSome_eq_false_iff,
    Option.isNone_iff_eq_none, decide_eq_false_iff_not] at h
  obtain ⟨⟨hspace, hpunctuation⟩, hquote⟩ := h
  simp [enter, hspace, hquote, hpunctuation]

/-- In a word, the rest of the word is taken. -/
theorem tokensFrom_word {reversed word : List Char} {rest : List Text.Symbol}
    (hword : ∀ c ∈ word, isWordSymbol (some c) = true) (hrest : Ends rest) :
    tokensFrom (.word reversed) (word.map some ++ rest) =
      .ofWord (reversed.reverse ++ word) :: tokensFrom .between rest := by
  induction word generalizing reversed with
  | nil =>
    cases rest with
    | nil => simp [tokensFrom]
    | cons symbol rest =>
      have hsymbol := hrest symbol rfl
      cases symbol <;> simp [tokensFrom, hsymbol]
  | cons c word ih =>
    have hc := hword c List.mem_cons_self
    have hword : ∀ d ∈ word, isWordSymbol (some d) = true :=
      fun d hd => hword d (List.mem_cons_of_mem _ hd)
    calc tokensFrom (.word reversed) (some c :: (word.map some ++ rest))
        = tokensFrom (.word (c :: reversed)) (word.map some ++ rest) := by
          simp only [tokensFrom, hc]
      _ = .ofWord (reversed.reverse ++ c :: word) :: tokensFrom .between rest := by
          rw [ih hword]
          simp

/-- Between tokens, a word is taken as one token. -/
theorem tokensFrom_between_word {word : List Char} {rest : List Text.Symbol} (hne : word ≠ [])
    (hword : ∀ c ∈ word, isWordSymbol (some c) = true) (hrest : Ends rest) :
    tokensFrom .between (word.map some ++ rest) = .ofWord word :: tokensFrom .between rest := by
  obtain ⟨c, word, rfl⟩ := List.exists_cons_of_ne_nil hne
  rw [List.map_cons, List.cons_append, tokensFrom,
    enter_of_isWordSymbol (hword c List.mem_cons_self),
    tokensFrom_word (fun d hd => hword d (List.mem_cons_of_mem _ hd)) hrest]
  rfl

/-- The text of a numeral is the token of the numeral. -/
theorem ofWord_toText (n : Numeral) : Token.ofWord n.toText = .word (.number n) := by
  obtain ⟨c, digits, hdigits, hdigit⟩ := Text.exists_cons_ofNat n.whole
  -- a numeral starts with a digit or a sign, and the other words with a letter
  have hletter {letter : Char} {rest : List Char} (hl : letter.isDigit = false)
      (hsign : letter ≠ '-') : n.toText ≠ letter :: rest := by
    rw [Numeral.toText_eq, hdigits]
    intro h
    split at h
    · exact hsign (List.cons_eq_cons.1 h).1.symm
    · rw [← (List.cons_eq_cons.1 h).1, hdigit] at hl
      cases hl
  rw [Token.ofWord, if_neg (hletter rfl (by decide)), if_neg (hletter rfl (by decide)),
    if_neg (hletter rfl (by decide)), readNumeral?_toText]

/-! ## Strings -/

/-- A hexadecimal digit is read as the number it is written for. -/
theorem hexDigit?_hexChar {n : Nat} (h : n < 16) : Text.hexDigit? (hexChar n) = some n := by
  revert h n
  decide

/-- How a character may stand in a string: as an escape of one letter, as the number of a control
character, or as itself. -/
inductive Escape (c : Char) : List Char → Prop
  | letter {letter : Char} (hletter : letter ≠ 'u')
      (hlookup : shortEscapes.lookup letter = some c) : Escape c ['\\', letter]
  | number (hcontrol : c.toNat < 0x20) :
      Escape c ['\\', 'u', '0', '0', hexChar (c.toNat / 16), hexChar (c.toNat % 16)]
  | itself (hquote : c ≠ '"') (hbackslash : c ≠ '\\') (hcontrol : ¬ c.toNat < 0x20) : Escape c [c]

theorem Escape.of_eq {c d letter : Char} (h : c = d) (hletter : letter ≠ 'u')
    (hlookup : shortEscapes.lookup letter = some d) : Escape c ['\\', letter] := by
  subst h
  exact .letter hletter hlookup

theorem escape_escapeChar (c : Char) : Escape c (escapeChar c) := by
  rw [escapeChar]
  split
  · next h => exact .of_eq h (by decide) rfl
  split
  · next h => exact .of_eq h (by decide) rfl
  split
  · next h => exact .of_eq h (by decide) rfl
  split
  · next h => exact .of_eq h (by decide) rfl
  split
  · next h => exact .of_eq h (by decide) rfl
  split
  · next h => exact .of_eq h (by decide) rfl
  split
  · next h => exact .of_eq h (by decide) rfl
  split
  · next h => exact .number h
  · next hquote hbackslash _ _ _ _ _ hcontrol => exact .itself hquote hbackslash hcontrol

/-- No quote ends a string in the middle of a character. -/
theorem tokensFrom_escape {c : Char} {text : List Char} (h : Escape c text)
    (reversed rest : List Text.Symbol) :
    tokensFrom (.quoted reversed) (text.map some ++ rest) =
      tokensFrom (.quoted ((text.map some).reverse ++ reversed)) rest := by
  cases h with
  | letter hletter hlookup => simp [tokensFrom]
  | number hcontrol =>
    have hhex : ∀ n < 16, hexChar n ≠ '"' ∧ hexChar n ≠ '\\' := by decide
    have hhigh := hhex (c.toNat / 16) (by omega)
    have hlow := hhex (c.toNat % 16) (by omega)
    simp [tokensFrom, hhigh, hlow]
  | itself hquote hbackslash hcontrol => simp [tokensFrom, hquote, hbackslash]

/-- A piece that stands for a character: the character, or the number of a control character. -/
inductive Piece.Spells (c : Char) : Piece → Prop
  | symbol : Spells c (.symbol (some c))
  | unit (hcontrol : c.toNat < 0x20) : Spells c (.unit c.toNat)

/-- A character that is escaped is read as a piece that stands for it. -/
theorem pieces?_escape {c : Char} {text : List Char} (h : Escape c text) :
    ∃ piece, piece.Spells c ∧
      ∀ rest, pieces? (text.map some ++ rest) = (pieces? rest).map (piece :: ·) := by
  cases h with
  | letter hletter hlookup =>
    refine ⟨_, .symbol, fun rest => ?_⟩
    cases hrest : pieces? rest <;> simp [pieces?, hletter, hlookup, hrest]
  | number hcontrol =>
    have hhigh := hexDigit?_hexChar (show c.toNat / 16 < 16 by omega)
    have hlow := hexDigit?_hexChar (show c.toNat % 16 < 16 by omega)
    have hunit : hexUnit? [some '0', some '0', some (hexChar (c.toNat / 16)),
        some (hexChar (c.toNat % 16))] = some c.toNat := by
      have hzero : Text.hexDigit? '0' = some 0 := rfl
      simp only [hexUnit?, List.mapM_cons, List.mapM_nil, Option.bind_some, hzero, hhigh, hlow,
        Option.bind_eq_bind, Option.pure_def, Text.ofBase, List.foldl_cons, List.foldl_nil,
        Option.some.injEq]
      omega
    refine ⟨_, .unit hcontrol, fun rest => ?_⟩
    cases hrest : pieces? rest <;> simp [pieces?, hunit, hrest]
  | itself hquote hbackslash hcontrol =>
    refine ⟨_, .symbol, fun rest => ?_⟩
    simp [pieces?, hbackslash, isControl, hcontrol]

/-- A piece that stands for a character is joined to nothing. -/
theorem joinPieces_spells {c : Char} {piece : Piece} (h : piece.Spells c) (rest : List Piece) :
    joinPieces (piece :: rest) = some c :: joinPieces rest := by
  cases h with
  | symbol => rw [joinPieces]
  | unit hcontrol =>
    have hhigh : isHighSurrogate c.toNat = false := by
      simp only [isHighSurrogate, Bool.and_eq_false_iff, decide_eq_false_iff_not]
      omega
    have hlow : isLowSurrogate c.toNat = false := by
      simp only [isLowSurrogate, Bool.and_eq_false_iff, decide_eq_false_iff_not]
      omega
    have hsymbol : unitSymbol c.toNat = some c := by
      simp [unitSymbol, hhigh, hlow]
    rcases rest with _ | ⟨_ | _, rest⟩ <;> simp [joinPieces, hhigh, hsymbol]

/-- A text that is escaped is read as the text. -/
theorem ofQuoted_escaped (text : String) :
    Token.ofQuoted ((text.toList.flatMap escapeChar).map some) = .string (some text) := by
  have hpieces (chars : List Char) : ∃ pieces,
      pieces? ((chars.flatMap escapeChar).map some) = some pieces ∧
        joinPieces pieces = chars.map some := by
    induction chars with
    | nil => exact ⟨[], by simp [pieces?], by simp [joinPieces]⟩
    | cons c chars ih =>
      obtain ⟨pieces, hread, hjoin⟩ := ih
      obtain ⟨piece, hspells, hpiece⟩ := pieces?_escape (escape_escapeChar c)
      refine ⟨piece :: pieces, ?_, ?_⟩
      · rw [List.flatMap_cons, List.map_append, hpiece, hread, Option.map_some]
      · rw [joinPieces_spells hspells, hjoin, List.map_cons]
  have hsymbols : (text.toList.map some).mapM id = some text.toList := by
    rw [Outcome.mapM_eq_some_iff, List.forall₂_map_left_iff]
    exact List.forall₂_same.2 fun _ _ => rfl
  obtain ⟨pieces, hread, hjoin⟩ := hpieces text.toList
  rw [Token.ofQuoted, hread]
  simp only [hjoin, Text.ofSymbols?, hsymbols, Option.map_some, String.ofList_toList]

/-- The text between two quotes is cut off as one string. -/
theorem tokensFrom_quoted (chars : List Char) (reversed rest : List Text.Symbol) :
    tokensFrom (.quoted reversed) ((chars.flatMap escapeChar).map some ++ some '"' :: rest) =
      .ofQuoted (reversed.reverse ++ (chars.flatMap escapeChar).map some) ::
        tokensFrom .between rest := by
  induction chars generalizing reversed with
  | nil => simp [tokensFrom]
  | cons c chars ih =>
    rw [List.flatMap_cons, List.map_append, List.append_assoc,
      tokensFrom_escape (escape_escapeChar c), ih]
    simp

/-- A string is cut off as one token, whatever follows it. -/
theorem tokensFrom_quote (text : Option String) (rest : List Text.Symbol) :
    tokensFrom .between ((quote text).map some ++ rest) =
      .string text :: tokensFrom .between rest := by
  cases text with
  | some text =>
    have hquoted := tokensFrom_quoted text.toList [] rest
    rw [List.reverse_nil, List.nil_append, ofQuoted_escaped] at hquoted
    rw [quote, List.map_cons, List.map_append, List.cons_append, List.append_assoc]
    exact hquoted
  | none =>
    have hhalf : Token.ofQuoted
        [some '\\', some 'u', some 'd', some '8', some '0', some '0'] = .string none := by
      rfl
    simp [quote, tokensFrom, enter, isSpace, hhalf]

end Json

end Expunge
