import EbpfToy.Lib.Text
import Mathlib.Data.List.TakeWhile

/-!
# Flat JSON objects

Objects whose members are numbers and strings, as an indenting encoder writes
them, and a reader for them. A string is written from its code points; a byte
that is part of none is written as the replacement character U+FFFD. A number
is kept as its token.

`readObject_marshalIndent`: what was written is read back, member by member.
`eq_of_readObject_isPrefix`: a text that was cut is not read at all.
-/

namespace Lib.Json

def quotation : Char := Char.ofNat 0x22

def backslash : Char := Char.ofNat 0x5c

def openBrace : Char := Char.ofNat 0x7b

def closeBrace : Char := Char.ofNat 0x7d

/-- What stands in a string for a byte that is no character. -/
def replacement : Char := Char.ofNat 0xfffd

def isNumberChar (c : Char) : Bool :=
  c.isDigit || c == '-' || c == '+' || c == '.' || c == 'e' || c == 'E'

/-- A number as it stands in the text. -/
structure Token where
  text : List Char
  ne_nil : text ≠ []
  isNumber : text.all isNumberChar = true

/-- The value of a member, with strings from `S`. -/
inductive Scalar (S : Type) where
  | num (token : Token)
  | str (s : S)

/-- Members, in order. -/
abbrev Object (S : Type) := List (List Char × Scalar S)

/-- A string to be written: its code points, with `none` for a stray byte. -/
abbrev Runes := List (Option Char)

/-! ## Writing -/

/-- The letter of a two-character escape. -/
def shortEscape (c : Char) : Option Char :=
  if c.toNat = 0x08 then some 'b'
  else if c.toNat = 0x0c then some 'f'
  else if c.toNat = 0x0a then some 'n'
  else if c.toNat = 0x0d then some 'r'
  else if c.toNat = 0x09 then some 't'
  else none

def hex4 (n : Nat) : List Char :=
  [Nat.digitChar (n / 4096 % 16), Nat.digitChar (n / 256 % 16), Nat.digitChar (n / 16 % 16),
    Nat.digitChar (n % 16)]

/-- Control characters, the characters that HTML gives a meaning, and the two
line separators that JavaScript does not allow in strings. -/
def isEscapedByCode (c : Char) : Bool :=
  decide (c.toNat < 0x20) || c == '<' || c == '>' || c == '&' || c.toNat == 0x2028 ||
    c.toNat == 0x2029

def escapeCode (n : Nat) : List Char := backslash :: 'u' :: hex4 n

def escape : Option Char → List Char
  | none => escapeCode replacement.toNat
  | some c =>
      if c = quotation ∨ c = backslash then [backslash, c]
      else
        match shortEscape c with
        | some letter => [backslash, letter]
        | none => if isEscapedByCode c then escapeCode c.toNat else [c]

def quote (s : Runes) : List Char := quotation :: (s.flatMap escape ++ [quotation])

def Scalar.text : Scalar Runes → List Char
  | .num token => token.text
  | .str s => quote s

/-- One member, on a line of its own, indented by two spaces. -/
def memberText (m : List Char × Scalar Runes) : List Char :=
  '\n' :: ' ' :: ' ' :: (quote (m.1.map some) ++ ':' :: ' ' :: m.2.text)

def membersText : Object Runes → List Char
  | [] => ['\n', closeBrace]
  | [m] => memberText m ++ ['\n', closeBrace]
  | m :: ms => memberText m ++ ',' :: membersText ms

/-- An object without members has no line of its own. -/
def marshalIndent : Object Runes → List Char
  | [] => [openBrace, closeBrace]
  | ms => openBrace :: membersText ms

/-! ## Reading -/

def isSpace (c : Char) : Bool := c == ' ' || c == '\n' || c == '\r' || c == '\t'

def skip (cs : List Char) : List Char := cs.dropWhile isSpace

/-- Drop `c`, which must come next. -/
def expect (c : Char) : List Char → Option (List Char)
  | [] => none
  | d :: cs => if d = c then some cs else none

def hexValue (c : Char) : Option Nat :=
  if '0' ≤ c ∧ c ≤ '9' then some (c.toNat - 48)
  else if 'a' ≤ c ∧ c ≤ 'f' then some (c.toNat - 87)
  else if 'A' ≤ c ∧ c ≤ 'F' then some (c.toNat - 55)
  else none

/-- The character of a code in four hexadecimal digits; surrogates are no
characters. -/
def readCode (a b c d : Char) : Option Char := do
  let n := (← hexValue a) * 4096 + (← hexValue b) * 256 + (← hexValue c) * 16 + (← hexValue d)
  if n.isValidChar then some (Char.ofNat n) else none

/-- What a two-character escape stands for. -/
def readShort (letter : Char) : Option Char :=
  if letter = quotation ∨ letter = backslash ∨ letter = '/' then some letter
  else if letter = 'b' then some (Char.ofNat 0x08)
  else if letter = 'f' then some (Char.ofNat 0x0c)
  else if letter = 'n' then some (Char.ofNat 0x0a)
  else if letter = 'r' then some (Char.ofNat 0x0d)
  else if letter = 't' then some (Char.ofNat 0x09)
  else none

/-- A string after its opening quotation mark, and what follows it. -/
def readString : List Char → Option (List Char × List Char)
  | [] => none
  | c :: cs =>
      if c = quotation then some ([], cs)
      else if c = backslash then
        match cs with
        | [] => none
        | letter :: cs =>
            if letter = 'u' then
              match cs with
              | w :: x :: y :: z :: cs => do
                  let code ← readCode w x y z
                  let (s, rest) ← readString cs
                  some (code :: s, rest)
              | _ => none
            else do
              let code ← readShort letter
              let (s, rest) ← readString cs
              some (code :: s, rest)
      else do
        let (s, rest) ← readString cs
        some (c :: s, rest)

def readScalar (cs : List Char) : Option (Scalar (List Char) × List Char) :=
  match expect quotation cs with
  | some cs => do
      let (s, rest) ← readString cs
      some (.str s, rest)
  | none =>
      if h : cs.takeWhile isNumberChar = [] then none
      else some (.num ⟨cs.takeWhile isNumberChar, h, List.all_takeWhile⟩, cs.dropWhile isNumberChar)

def readMember (cs : List Char) : Option ((List Char × Scalar (List Char)) × List Char) := do
  let (key, cs) ← readString (← expect quotation (skip cs))
  let (value, cs) ← readScalar (skip (← expect ':' (skip cs)))
  some ((key, value), cs)

/-- Members up to the closing brace, and what follows it; `fuel` bounds their
number. -/
def readMembers : Nat → List Char → Option (Object (List Char) × List Char)
  | 0, _ => none
  | fuel + 1, cs => do
      let (m, cs) ← readMember cs
      match expect ',' (skip cs) with
      | some cs =>
          let (ms, rest) ← readMembers fuel cs
          some (m :: ms, rest)
      | none => some ([m], ← expect closeBrace (skip cs))

/-- A text that is one object. -/
def readObject (text : List Char) : Option (Object (List Char)) := do
  let cs ← expect openBrace (skip text)
  let (ms, rest) ← match expect closeBrace (skip cs) with
    | some rest => some ([], rest)
    | none => readMembers cs.length cs
  if skip rest = [] then some ms else none

/-! ## What was written is read back -/

/-- The characters of a string as a reader gets them. -/
def toText (s : Runes) : List Char := s.map fun c => c.getD replacement

def Scalar.read : Scalar Runes → Scalar (List Char)
  | .num token => .num token
  | .str s => .str (toText s)

theorem hexValue_digitChar : ∀ d < 16, hexValue (Nat.digitChar d) = some d := by decide

theorem readCode_hex4 {n : Nat} (hvalid : n.isValidChar) (h : n < 0x10000) :
    readCode (Nat.digitChar (n / 4096 % 16)) (Nat.digitChar (n / 256 % 16))
      (Nat.digitChar (n / 16 % 16)) (Nat.digitChar (n % 16)) = some (Char.ofNat n) := by
  have hdigits : n / 4096 % 16 * 4096 + n / 256 % 16 * 256 + n / 16 % 16 * 16 + n % 16 = n := by
    omega
  simp only [readCode, hexValue_digitChar _ (Nat.mod_lt _ (by decide : 16 > 0))]
  show (if _ then _ else _) = _
  rw [hdigits, if_pos hvalid]

theorem readString_code {w x y z c : Char} (h : readCode w x y z = some c) (cs : List Char) :
    readString (backslash :: 'u' :: w :: x :: y :: z :: cs) =
      (readString cs).map fun p => (c :: p.1, p.2) := by
  have hquotation : backslash ≠ quotation := by decide
  rw [readString.eq_def]
  simp only [if_neg hquotation, if_true, h]
  cases readString cs <;> rfl

theorem readString_escapeCode {n : Nat} (hvalid : n.isValidChar) (h : n < 0x10000)
    (cs : List Char) : readString (escapeCode n ++ cs) =
      (readString cs).map fun p => (Char.ofNat n :: p.1, p.2) :=
  readString_code (readCode_hex4 hvalid h) cs

theorem readString_short {letter c : Char} (hu : letter ≠ 'u') (h : readShort letter = some c)
    (cs : List Char) : readString ([backslash, letter] ++ cs) =
      (readString cs).map fun p => (c :: p.1, p.2) := by
  have hquotation : backslash ≠ quotation := by decide
  simp only [List.cons_append, List.nil_append]
  rw [readString.eq_def]
  simp only [if_neg hquotation, if_true, if_neg hu, h]
  cases readString cs <;> rfl

theorem readString_plain {c : Char} (hquotation : c ≠ quotation) (hbackslash : c ≠ backslash)
    (cs : List Char) : readString ([c] ++ cs) =
      (readString cs).map fun p => (c :: p.1, p.2) := by
  rw [List.singleton_append, readString.eq_def]
  simp only [if_neg hquotation, if_neg hbackslash]
  cases readString cs <;> rfl

/-- A two-character escape stands for the character it was chosen for. -/
theorem readShort_shortEscape {c letter : Char} (h : shortEscape c = some letter) :
    letter ≠ 'u' ∧ readShort letter = some c := by
  have hchar : ∀ n, c.toNat = n → c = Char.ofNat n := by
    intro n hn
    rw [← hn, Char.ofNat_toNat]
  unfold shortEscape at h
  split at h
  · rename_i hn
    obtain rfl := Option.some.inj h
    exact ⟨by decide, by rw [hchar _ hn]; decide⟩
  split at h
  · rename_i hn
    obtain rfl := Option.some.inj h
    exact ⟨by decide, by rw [hchar _ hn]; decide⟩
  split at h
  · rename_i hn
    obtain rfl := Option.some.inj h
    exact ⟨by decide, by rw [hchar _ hn]; decide⟩
  split at h
  · rename_i hn
    obtain rfl := Option.some.inj h
    exact ⟨by decide, by rw [hchar _ hn]; decide⟩
  split at h
  · rename_i hn
    obtain rfl := Option.some.inj h
    exact ⟨by decide, by rw [hchar _ hn]; decide⟩
  · contradiction

/-- What is escaped by its code has a code of four digits. -/
theorem toNat_lt_of_isEscapedByCode {c : Char} (h : isEscapedByCode c = true) :
    c.toNat < 0x10000 := by
  simp only [isEscapedByCode, Bool.or_eq_true, decide_eq_true_eq, beq_iff_eq] at h
  rcases h with ((((h | rfl) | rfl) | rfl) | h) | h
  · omega
  · decide
  · decide
  · decide
  · omega
  · omega

/-- One code point is read as one character. -/
theorem readString_escape (r : Option Char) (cs : List Char) :
    readString (escape r ++ cs) =
      (readString cs).map fun p => (r.getD replacement :: p.1, p.2) := by
  cases r with
  | none => exact readString_escapeCode (n := replacement.toNat) (by decide) (by decide) cs
  | some c =>
      by_cases hspecial : c = quotation ∨ c = backslash
      · have hu : c ≠ 'u' := by rcases hspecial with rfl | rfl <;> decide
        have hread : readShort c = some c := by rcases hspecial with rfl | rfl <;> decide
        rw [escape, if_pos hspecial]
        exact readString_short hu hread cs
      · obtain ⟨hquotation, hbackslash⟩ := not_or.mp hspecial
        rw [escape, if_neg hspecial]
        cases hshort : shortEscape c with
        | some letter =>
            obtain ⟨hu, hread⟩ := readShort_shortEscape hshort
            exact readString_short hu hread cs
        | none =>
            by_cases hcode : isEscapedByCode c = true
            · show readString ((if _ then _ else _) ++ cs) = _
              rw [if_pos hcode, readString_escapeCode (n := c.toNat) c.valid
                (toNat_lt_of_isEscapedByCode hcode) cs, Char.ofNat_toNat]
              rfl
            · show readString ((if _ then _ else _) ++ cs) = _
              rw [if_neg hcode]
              exact readString_plain hquotation hbackslash cs

/-- A string is read back up to its closing quotation mark. -/
theorem readString_quoted (s : Runes) (cs : List Char) :
    readString (s.flatMap escape ++ quotation :: cs) = some (toText s, cs) := by
  induction s with
  | nil =>
      show readString (quotation :: cs) = _
      rw [readString.eq_def]
      simp only [if_true]
      rfl
  | cons r s ih =>
      rw [List.flatMap_cons, List.append_assoc, readString_escape, ih]
      rfl

@[simp] theorem expect_self (c : Char) (cs : List Char) : expect c (c :: cs) = some cs := if_pos rfl

theorem expect_of_ne {c d : Char} (h : d ≠ c) (cs : List Char) : expect c (d :: cs) = none :=
  if_neg h

theorem skip_of_not_space {c : Char} (h : isSpace c = false) (cs : List Char) :
    skip (c :: cs) = c :: cs := by
  rw [skip, List.dropWhile_cons, h]
  rfl

theorem skip_space {c : Char} (h : isSpace c = true) (cs : List Char) :
    skip (c :: cs) = skip cs := by
  rw [skip, List.dropWhile_cons, if_pos h]
  rfl

/-- The text does not go on with a number. -/
def EndsNumber (cs : List Char) : Prop := ∀ c ∈ cs.head?, isNumberChar c = false

theorem EndsNumber.takeWhile {cs : List Char} (h : EndsNumber cs) :
    cs.takeWhile isNumberChar = [] ∧ cs.dropWhile isNumberChar = cs := by
  cases cs with
  | nil => exact ⟨rfl, rfl⟩
  | cons c cs =>
      have hc : isNumberChar c = false := h c rfl
      simp [hc]

theorem readScalar_num (token : Token) {cs : List Char} (h : EndsNumber cs) :
    readScalar (token.text ++ cs) = some (.num token, cs) := by
  obtain ⟨text, hne, hnumber⟩ := token
  have hall : ∀ c ∈ text, isNumberChar c = true := List.all_eq_true.mp hnumber
  have htake : (text ++ cs).takeWhile isNumberChar = text := by
    rw [List.takeWhile_append_of_pos hall, h.takeWhile.1, List.append_nil]
  have hdrop : (text ++ cs).dropWhile isNumberChar = cs := by
    rw [List.dropWhile_append_of_pos hall, h.takeWhile.2]
  have hquotation : expect quotation (text ++ cs) = none := by
    cases text with
    | nil => contradiction
    | cons c text =>
        apply expect_of_ne
        rintro rfl
        exact absurd (hall quotation List.mem_cons_self) (by decide)
  unfold readScalar
  simp only [hquotation, htake, hdrop, hne, dite_false]

/-- A value is read back, whatever follows it. -/
theorem readScalar_text (v : Scalar Runes) {cs : List Char} (h : EndsNumber cs) :
    readScalar (v.text ++ cs) = some (v.read, cs) := by
  cases v with
  | num token => exact readScalar_num token h
  | str s =>
      have hquoted := readString_quoted s cs
      simp only [Scalar.text, quote, List.cons_append, List.append_assoc, List.nil_append]
      unfold readScalar
      rw [expect_self]
      simp only [hquoted]
      rfl

theorem toText_map_some (s : List Char) : toText (s.map some) = s := by
  rw [toText, List.map_map]
  exact List.map_id s

theorem isSpace_head_text (v : Scalar Runes) (cs : List Char) :
    skip (v.text ++ cs) = v.text ++ cs := by
  cases v with
  | num token =>
      obtain ⟨text, hne, hnumber⟩ := token
      cases text with
      | nil => contradiction
      | cons c text =>
          have hc : isNumberChar c = true := List.all_eq_true.mp hnumber c List.mem_cons_self
          apply skip_of_not_space
          cases hspace : isSpace c with
          | false => rfl
          | true =>
              simp only [isSpace, Bool.or_eq_true, beq_iff_eq] at hspace
              rcases hspace with ((rfl | rfl) | rfl) | rfl <;> exact absurd hc (by decide)
  | str s => exact skip_of_not_space (by decide) _

theorem readMember_text (m : List Char × Scalar Runes) {cs : List Char} (h : EndsNumber cs) :
    readMember (memberText m ++ cs) = some ((m.1, m.2.read), cs) := by
  obtain ⟨key, value⟩ := m
  have hkey := readString_quoted (key.map some) (':' :: ' ' :: (value.text ++ cs))
  have hskip : skip (memberText (key, value) ++ cs) =
      quotation :: ((key.map some).flatMap escape ++
        quotation :: ':' :: ' ' :: (value.text ++ cs)) := by
    simp only [memberText, quote, List.cons_append, List.append_assoc, List.nil_append]
    rw [skip_space (by decide), skip_space (by decide), skip_space (by decide),
      skip_of_not_space (by decide)]
  have hcolon : skip (':' :: ' ' :: (value.text ++ cs)) = ':' :: ' ' :: (value.text ++ cs) :=
    skip_of_not_space (by decide) _
  have hvalue : skip (' ' :: (value.text ++ cs)) = value.text ++ cs := by
    rw [skip_space (by decide), isSpace_head_text]
  unfold readMember
  rw [hskip, expect_self]
  simp only [Option.bind_eq_bind, Option.bind_some, hkey, hcolon, expect_self, hvalue,
    readScalar_text value h, toText_map_some]

theorem endsNumber_comma (cs : List Char) : EndsNumber (',' :: cs) := by
  rintro c ⟨rfl⟩
  decide

theorem endsNumber_newline (cs : List Char) : EndsNumber ('\n' :: cs) := by
  rintro c ⟨rfl⟩
  decide

/-- Members are read back, one after the other. -/
theorem readMembers_text {ms : Object Runes} (hne : ms ≠ []) {fuel : Nat}
    (hfuel : ms.length ≤ fuel) :
    readMembers fuel (membersText ms) = some (ms.map fun m => (m.1, m.2.read), []) := by
  induction ms generalizing fuel with
  | nil => contradiction
  | cons m ms ih =>
      cases fuel with
      | zero => simp at hfuel
      | succ fuel =>
          cases ms with
          | nil =>
              have hmember := readMember_text m (endsNumber_newline [closeBrace])
              have hend : skip ['\n', closeBrace] = [closeBrace] := by decide
              have hcomma : expect ',' [closeBrace] = none := by decide
              unfold readMembers membersText
              simp only [Option.bind_eq_bind, hmember, Option.bind_some, hend, hcomma, expect_self]
              rfl
          | cons m' ms =>
              have hrest := ih (List.cons_ne_nil m' ms) (Nat.le_of_succ_le_succ hfuel)
              have hmember := readMember_text m (endsNumber_comma (membersText (m' :: ms)))
              have hskip : skip (',' :: membersText (m' :: ms)) = ',' :: membersText (m' :: ms) :=
                skip_of_not_space (by decide) _
              show readMembers (fuel + 1) (memberText m ++ ',' :: membersText (m' :: ms)) = _
              unfold readMembers
              simp only [Option.bind_eq_bind, hmember, Option.bind_some, hskip, expect_self, hrest]
              rfl

theorem membersText_cons (m : List Char × Scalar Runes) (ms : Object Runes) :
    ∃ cs, membersText (m :: ms) = memberText m ++ cs := by
  cases ms with
  | nil => exact ⟨_, rfl⟩
  | cons m' ms => exact ⟨_, rfl⟩

/-- A member has a line of its own, so a text has more characters than members. -/
theorem length_le_membersText (ms : Object Runes) : ms.length ≤ (membersText ms).length := by
  induction ms with
  | nil => exact Nat.zero_le _
  | cons m ms ih =>
      cases ms with
      | nil => simp [membersText, memberText]
      | cons m' ms =>
          show (m' :: ms).length + 1 ≤ (memberText m ++ ',' :: membersText (m' :: ms)).length
          rw [List.length_append, List.length_cons (a := ',')]
          omega

/-- An object is read back, member by member. -/
theorem readObject_marshalIndent (ms : Object Runes) :
    readObject (marshalIndent ms) = some (ms.map fun m => (m.1, m.2.read)) := by
  cases ms with
  | nil => rfl
  | cons m ms =>
      have hopen : skip (marshalIndent (m :: ms)) = openBrace :: membersText (m :: ms) :=
        skip_of_not_space (by decide) _
      have hclose : expect closeBrace (skip (membersText (m :: ms))) = none := by
        obtain ⟨cs, hcs⟩ := membersText_cons m ms
        rw [hcs]
        simp only [memberText, quote, List.cons_append]
        rw [skip_space (by decide), skip_space (by decide), skip_space (by decide),
          skip_of_not_space (by decide)]
        exact expect_of_ne (by decide) _
      have hmembers := readMembers_text (List.cons_ne_nil m ms)
        (length_le_membersText (m :: ms))
      unfold readObject
      simp only [Option.bind_eq_bind, hopen, expect_self, Option.bind_some, hclose, hmembers]
      rfl

/-! ## A text that is cut -/

/-- What is read of a string does not depend on what comes after it. -/
theorem readString_append {cs s rest : List Char} (h : readString cs = some (s, rest))
    (more : List Char) : readString (cs ++ more) = some (s, rest ++ more) := by
  fun_induction readString cs generalizing s rest with
  | case1 => contradiction
  | case2 cs =>
      obtain ⟨rfl, rfl⟩ := Prod.mk.inj (Option.some.inj h)
      rw [List.cons_append, readString.eq_def]
      exact if_pos rfl
  | case3 => contradiction
  | case4 w x y z cs _ ih =>
      simp only [Option.bind_eq_bind, Option.bind_eq_some_iff] at h
      obtain ⟨code, hcode, ⟨s', rest'⟩, hs, heq⟩ := h
      obtain ⟨rfl, rfl⟩ := Prod.mk.inj (Option.some.inj heq)
      have hread := readString_code hcode (cs ++ more)
      rwa [ih hs] at hread
  | case5 => contradiction
  | case6 letter cs hu _ ih =>
      simp only [Option.bind_eq_bind, Option.bind_eq_some_iff] at h
      obtain ⟨code, hcode, ⟨s', rest'⟩, hs, heq⟩ := h
      obtain ⟨rfl, rfl⟩ := Prod.mk.inj (Option.some.inj heq)
      have hread := readString_short hu hcode (cs ++ more)
      rwa [ih hs] at hread
  | case7 c cs hquotation hbackslash ih =>
      simp only [Option.bind_eq_bind, Option.bind_eq_some_iff] at h
      obtain ⟨⟨s', rest'⟩, hs, heq⟩ := h
      obtain ⟨rfl, rfl⟩ := Prod.mk.inj (Option.some.inj heq)
      have hread := readString_plain hquotation hbackslash (cs ++ more)
      rwa [ih hs] at hread

theorem expect_eq_some_iff {c : Char} {cs rest : List Char} :
    expect c cs = some rest ↔ cs = c :: rest := by
  cases cs with
  | nil => simp [expect]
  | cons d cs => by_cases hd : d = c <;> simp [expect, hd]

theorem expect_append_of_none {c : Char} {cs : List Char} (hne : cs ≠ []) (h : expect c cs = none)
    (more : List Char) : expect c (cs ++ more) = none := by
  cases cs with
  | nil => contradiction
  | cons d cs =>
      apply expect_of_ne
      rintro rfl
      rw [expect_self] at h
      contradiction

theorem skip_append {cs : List Char} (h : skip cs ≠ []) (more : List Char) :
    skip (cs ++ more) = skip cs ++ more := by
  induction cs with
  | nil => contradiction
  | cons c cs ih =>
      rw [List.cons_append]
      cases hc : isSpace c with
      | false => rw [skip_of_not_space hc, skip_of_not_space hc, List.cons_append]
      | true =>
          rw [skip_space hc] at h ⊢
          rw [skip_space hc, ih h]

/-- The next character, after some space, is still the next one. -/
theorem expect_skip_append {c : Char} {cs rest : List Char} (h : expect c (skip cs) = some rest)
    (more : List Char) : expect c (skip (cs ++ more)) = some (rest ++ more) := by
  rw [expect_eq_some_iff] at h ⊢
  rw [skip_append (by rw [h]; exact List.cons_ne_nil _ _), h, List.cons_append]

/-- Nor does a value, unless it is a number that may go on. -/
theorem readScalar_append {cs rest : List Char} {v : Scalar (List Char)}
    (h : readScalar cs = some (v, rest)) (hrest : rest ≠ []) (more : List Char) :
    readScalar (cs ++ more) = some (v, rest ++ more) := by
  unfold readScalar at h ⊢
  cases hquotation : expect quotation cs with
  | some cs' =>
      obtain rfl := expect_eq_some_iff.mp hquotation
      simp only [expect_self, List.cons_append, Option.bind_eq_bind,
        Option.bind_eq_some_iff] at h ⊢
      obtain ⟨⟨s, rest'⟩, hs, heq⟩ := h
      obtain ⟨rfl, rfl⟩ := Prod.mk.inj (Option.some.inj heq)
      exact ⟨_, readString_append hs more, rfl⟩
  | none =>
      simp only [hquotation] at h
      split at h
      · contradiction
      · rename_i hnumber
        obtain ⟨rfl, rfl⟩ := Prod.mk.inj (Option.some.inj h)
        have hne : cs ≠ [] := by
          rintro rfl
          exact hnumber rfl
        -- the number ends before `more` begins
        have hends : (cs.takeWhile isNumberChar).length ≠ cs.length := by
          intro hlength
          have hsplit : (cs.takeWhile isNumberChar ++ cs.dropWhile isNumberChar).length =
              cs.length := congrArg List.length List.takeWhile_append_dropWhile
          rw [List.length_append, hlength] at hsplit
          exact hrest (List.eq_nil_of_length_eq_zero (by omega))
        have htake : (cs ++ more).takeWhile isNumberChar = cs.takeWhile isNumberChar := by
          rw [List.takeWhile_append, if_neg hends]
        have hdrop : (cs ++ more).dropWhile isNumberChar = cs.dropWhile isNumberChar ++ more := by
          rw [List.dropWhile_append, if_neg]
          simpa using hrest
        simp only [expect_append_of_none hne hquotation, htake, hdrop, hnumber, dite_false]

theorem readMember_append {cs rest : List Char} {m : List Char × Scalar (List Char)}
    (h : readMember cs = some (m, rest)) (hrest : rest ≠ []) (more : List Char) :
    readMember (cs ++ more) = some (m, rest ++ more) := by
  unfold readMember at h ⊢
  simp only [Option.bind_eq_bind, Option.bind_eq_some_iff] at h ⊢
  obtain ⟨cs₁, hopen, ⟨key, cs₂⟩, hkey, cs₃, hcolon, ⟨value, cs₄⟩, hvalue, heq⟩ := h
  obtain ⟨rfl, rfl⟩ := Prod.mk.inj (Option.some.inj heq)
  refine ⟨_, expect_skip_append hopen more, _, readString_append hkey more, _,
    expect_skip_append hcolon more, (value, cs₄ ++ more), ?_, rfl⟩
  have hne : skip cs₃ ≠ [] := by
    intro hnil
    rw [hnil] at hvalue
    contradiction
  rw [skip_append hne]
  exact readScalar_append hvalue hrest more

theorem readMembers_append {cs rest : List Char} {ms : Object (List Char)} {fuel fuel' : Nat}
    (h : readMembers fuel cs = some (ms, rest)) (hfuel : fuel ≤ fuel') (more : List Char) :
    readMembers fuel' (cs ++ more) = some (ms, rest ++ more) := by
  induction fuel generalizing cs ms fuel' with
  | zero => contradiction
  | succ fuel ih =>
      obtain ⟨fuel', rfl⟩ : ∃ n, fuel' = n + 1 := ⟨fuel' - 1, by omega⟩
      unfold readMembers at h ⊢
      simp only [Option.bind_eq_bind, Option.bind_eq_some_iff] at h ⊢
      obtain ⟨⟨m, cs'⟩, hmember, hcase⟩ := h
      have hne : cs' ≠ [] := by
        rintro rfl
        contradiction
      refine ⟨_, readMember_append hmember hne more, ?_⟩
      cases hcomma : expect ',' (skip cs') with
      | some cs'' =>
          simp only [hcomma, expect_skip_append hcomma more, Option.bind_eq_some_iff] at hcase ⊢
          obtain ⟨⟨ms', rest'⟩, hms, heq⟩ := hcase
          obtain ⟨rfl, rfl⟩ := Prod.mk.inj (Option.some.inj heq)
          exact ⟨_, ih hms (Nat.le_of_succ_le_succ hfuel), rfl⟩
      | none =>
          simp only [hcomma, Option.bind_eq_some_iff] at hcase
          obtain ⟨rest', hclose, heq⟩ := hcase
          obtain ⟨rfl, rfl⟩ := Prod.mk.inj (Option.some.inj heq)
          have hskip : skip cs' ≠ [] := by
            intro hnil
            rw [hnil] at hclose
            contradiction
          have hnone : expect ',' (skip (cs' ++ more)) = none := by
            rw [skip_append hskip]
            exact expect_append_of_none hskip hcomma more
          simp only [hnone, expect_skip_append hclose more, Option.bind_some]

/-- No text is read on a blank. -/
theorem skip_ne_nil_of_readMembers {fuel : Nat} {cs rest : List Char} {ms : Object (List Char)}
    (h : readMembers fuel cs = some (ms, rest)) : skip cs ≠ [] := by
  intro hnil
  cases fuel with
  | zero => contradiction
  | succ fuel =>
      unfold readMembers readMember at h
      rw [hnil] at h
      contradiction

/-- An object is read up to its closing brace, whatever comes after it. -/
theorem readObject_append {cs : List Char} {ms : Object (List Char)} (h : readObject cs = some ms)
    (more : List Char) :
    readObject (cs ++ more) = if skip more = [] then some ms else none := by
  have hspace : ∀ rest : List Char, skip rest = [] → skip (rest ++ more) = skip more := by
    intro rest hrest
    rw [skip, List.dropWhile_append, if_pos]
    · rfl
    · exact List.isEmpty_iff.mpr hrest
  unfold readObject at h ⊢
  simp only [Option.bind_eq_bind, Option.bind_eq_some_iff] at h
  obtain ⟨cs', hopen, h⟩ := h
  rw [expect_skip_append hopen more]
  cases hclose : expect closeBrace (skip cs') with
  | some rest =>
      simp only [hclose, Option.bind_some] at h
      split at h
      · rename_i hrest
        obtain rfl := Option.some.inj h
        simp only [Option.bind_eq_bind, Option.bind_some, expect_skip_append hclose more,
          hspace rest hrest]
      · contradiction
  | none =>
      simp only [hclose, Option.bind_eq_some_iff] at h
      obtain ⟨⟨ms', rest⟩, hread, h⟩ := h
      split at h
      · rename_i hrest
        obtain rfl := Option.some.inj h
        have hskip : skip cs' ≠ [] := skip_ne_nil_of_readMembers hread
        have hnone : expect closeBrace (skip (cs' ++ more)) = none := by
          rw [skip_append hskip]
          exact expect_append_of_none hskip hclose more
        have hfuel : cs'.length ≤ (cs' ++ more).length := by
          rw [List.length_append]
          exact Nat.le_add_right _ _
        simp only [Option.bind_eq_bind, Option.bind_some, hnone,
          readMembers_append hread hfuel more, hspace rest hrest]
      · contradiction

theorem exists_marshalIndent (ms : Object Runes) :
    ∃ text, marshalIndent ms = text ++ [closeBrace] := by
  have hmembers : ∀ ms : Object Runes, ∃ text, membersText ms = text ++ [closeBrace] := by
    intro ms
    induction ms with
    | nil => exact ⟨['\n'], rfl⟩
    | cons m ms ih =>
        cases ms with
        | nil => exact ⟨memberText m ++ ['\n'], by simp [membersText]⟩
        | cons m' ms =>
            obtain ⟨text, htext⟩ := ih
            exact ⟨memberText m ++ ',' :: text, by simp [membersText, htext]⟩
  cases ms with
  | nil => exact ⟨[openBrace], rfl⟩
  | cons m ms =>
      obtain ⟨text, htext⟩ := hmembers (m :: ms)
      exact ⟨openBrace :: text, congrArg (openBrace :: ·) htext⟩

/-- A part of an object's text is no object. -/
theorem eq_of_readObject_isPrefix {cs : List Char} {ms : Object (List Char)} {ms' : Object Runes}
    (h : readObject cs = some ms) (hpre : cs <+: marshalIndent ms') : cs = marshalIndent ms' := by
  obtain ⟨more, hmore⟩ := hpre
  obtain ⟨text, hends⟩ := exists_marshalIndent ms'
  have hread := readObject_append h more
  rw [hmore, readObject_marshalIndent] at hread
  have hspace : skip more = [] := by
    by_contra hne
    rw [if_neg hne] at hread
    contradiction
  -- the last character is no space, so it is not in `more`
  rcases List.eq_nil_or_concat more with rfl | ⟨init, c, rfl⟩
  · rw [← hmore, List.append_nil]
  · rw [← hmore, List.concat_eq_append, ← List.append_assoc] at hends
    obtain rfl : c = closeBrace := List.singleton_inj.mp (List.append_inj' hends rfl).2
    have hall := List.dropWhile_eq_nil_iff.mp hspace closeBrace (by simp)
    exact absurd hall (by decide)

/-! ## Members by their keys -/

/-- The value of the first member with the key. -/
def Object.find {S : Type} (ms : Object S) (key : List Char) : Option (Scalar S) :=
  (ms.find? fun m => m.1 == key).map Prod.snd

/-- A natural number as a token. -/
def natToken (n : Nat) : Token where
  text := decimal n
  ne_nil := Nat.toDigits_ne_nil
  isNumber := by
    rw [List.all_eq_true]
    intro c hc
    have hdigit : c.isDigit = true := Nat.isDigit_of_mem_toDigits (by decide) (by decide) hc
    simp [isNumberChar, hdigit]

/-- An integer as a token. -/
def intToken : Int → Token
  | .ofNat n => natToken n
  | .negSucc n => {
      text := '-' :: decimal (n + 1)
      ne_nil := List.cons_ne_nil _ _
      isNumber := by
        have hdigits : (decimal (n + 1)).all isNumberChar = true := (natToken (n + 1)).isNumber
        rw [List.all_cons, hdigits]
        decide }

def Token.toNat (token : Token) : Nat := readDecimal token.text

def Token.toInt (token : Token) : Int :=
  match token.text with
  | '-' :: digits => -(readDecimal digits : Int)
  | digits => (readDecimal digits : Int)

@[simp] theorem toNat_natToken (n : Nat) : (natToken n).toNat = n := readDecimal_decimal n

@[simp] theorem toInt_intToken (n : Int) : (intToken n).toInt = n := by
  cases n with
  | ofNat n =>
      have hminus : ∀ digits, decimal n ≠ '-' :: digits := by
        intro digits heq
        have hmem : '-' ∈ decimal n := by rw [heq]; exact List.mem_cons_self
        exact not_mem_decimal (by decide) n hmem
      unfold Token.toInt
      split
      · rename_i digits heq
        exact absurd heq (hminus digits)
      · exact congrArg Int.ofNat (readDecimal_decimal n)
  | negSucc n =>
      show -(readDecimal (decimal (n + 1)) : Int) = _
      rw [readDecimal_decimal]
      rfl

end Lib.Json
