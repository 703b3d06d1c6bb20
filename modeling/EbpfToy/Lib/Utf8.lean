import EbpfToy.Lib.Json

/-!
# Strings of bytes

The code points of a string of bytes, taken one after the other; a byte that
begins no encoded character counts for itself (`runes`). The characters of a
string, with a replacement for such bytes, encode to the same bytes exactly
when the string is UTF-8 (`encode_toText_runes_iff`). A JSON object is read from
the bytes of a file only if none are missing (`eq_of_readObject_isPrefix`).
-/

namespace Lib.Utf8

open Json

/-- The bytes of the characters, in UTF-8. -/
def encode (cs : List Char) : List UInt8 := cs.flatMap String.utf8EncodeChar

/-- The character that the bytes begin with. -/
def decodeRune (s : List UInt8) : Option Char := s.toByteArray.utf8DecodeChar? 0

def runesUpTo : Nat → List UInt8 → Runes
  | 0, _ => []
  | _ + 1, [] => []
  | n + 1, b :: s =>
      match decodeRune (b :: s) with
      | some c => some c :: runesUpTo n ((b :: s).drop c.utf8Size)
      | none => none :: runesUpTo n s

/-- Every code point takes one byte at least. -/
def runes (s : List UInt8) : Runes := runesUpTo s.length s

theorem decodeRune_encode (c : Char) (s : List UInt8) :
    decodeRune (String.utf8EncodeChar c ++ s) = some c := by
  rw [decodeRune, List.toByteArray_append]
  exact ByteArray.utf8DecodeChar?_utf8EncodeChar_append

/-- What was decoded is encoded there. -/
theorem eq_of_decodeRune {s : List UInt8} {c : Char} (h : decodeRune s = some c) :
    s = String.utf8EncodeChar c ++ s.drop c.utf8Size := by
  obtain ⟨t, ht⟩ := ByteArray.exists_of_utf8DecodeChar?_eq_some h
  have hs : s = String.utf8EncodeChar c ++ t.data.toList := by
    have hdata := congrArg (fun b : ByteArray => b.data.toList) ht
    simpa using hdata
  have hlength := String.length_utf8EncodeChar c
  rw [hs, ← hlength, List.drop_left]

theorem utf8EncodeChar_ne_nil (c : Char) : String.utf8EncodeChar c ≠ [] := by
  intro h
  have hlength := String.length_utf8EncodeChar c
  have hpos := c.utf8Size_pos
  rw [h, List.length_nil] at hlength
  omega

/-- One decoded character. -/
theorem runesUpTo_of_decodeRune {n : Nat} {s : List UInt8} {c : Char}
    (h : decodeRune s = some c) :
    runesUpTo (n + 1) s = some c :: runesUpTo n (s.drop c.utf8Size) := by
  cases s with
  | nil =>
      have hs := eq_of_decodeRune h
      exact absurd (List.append_eq_nil_iff.mp hs.symm).1 (utf8EncodeChar_ne_nil c)
  | cons b s => rw [runesUpTo, h]

/-- The characters encode to as many bytes, and two more for each replacement. -/
theorem length_encode_runesUpTo {n : Nat} {s : List UInt8} (h : s.length ≤ n) :
    (encode (toText (runesUpTo n s))).length =
      s.length + 2 * (runesUpTo n s).countP Option.isNone := by
  induction n generalizing s with
  | zero =>
      obtain rfl : s = [] := List.eq_nil_of_length_eq_zero (Nat.le_zero.mp h)
      rfl
  | succ n ih =>
      cases s with
      | nil => rfl
      | cons b s =>
          cases hd : decodeRune (b :: s) with
          | none =>
              have hrest := ih (s := s) (by simpa using h)
              have hthree : (String.utf8EncodeChar replacement).length = 3 := by decide
              have hrunes : runesUpTo (n + 1) (b :: s) = none :: runesUpTo n s := by
                rw [runesUpTo, hd]
              rw [hrunes]
              simp only [toText, encode, List.map_cons, Option.getD_none, List.flatMap_cons,
                List.length_append, List.length_cons, List.countP_cons] at hrest ⊢
              simp only [Option.isNone_none, if_true]
              omega
          | some c =>
              have hlength := String.length_utf8EncodeChar c
              have hsplit := congrArg List.length (eq_of_decodeRune hd)
              have hpos := c.utf8Size_pos
              rw [List.length_append, hlength] at hsplit
              have hrest := ih (s := (b :: s).drop c.utf8Size) (by omega)
              rw [runesUpTo_of_decodeRune hd]
              simp only [toText, encode, List.map_cons, Option.getD_some, List.flatMap_cons,
                List.length_append, List.countP_cons] at hrest ⊢
              simp only [Option.isNone_some, Bool.false_eq_true, if_false]
              omega

/-- Without a stray byte the characters are those that were encoded. -/
theorem encode_runesUpTo {n : Nat} {s : List UInt8} (h : s.length ≤ n)
    (hvalid : none ∉ runesUpTo n s) : encode (toText (runesUpTo n s)) = s := by
  induction n generalizing s with
  | zero =>
      obtain rfl : s = [] := List.eq_nil_of_length_eq_zero (Nat.le_zero.mp h)
      rfl
  | succ n ih =>
      cases s with
      | nil => rfl
      | cons b s =>
          cases hd : decodeRune (b :: s) with
          | none =>
              rw [runesUpTo, hd] at hvalid
              exact absurd List.mem_cons_self hvalid
          | some c =>
              have hsplit := eq_of_decodeRune hd
              have hlength := congrArg List.length hsplit
              have hpos := c.utf8Size_pos
              rw [List.length_append, String.length_utf8EncodeChar] at hlength
              rw [runesUpTo_of_decodeRune hd] at hvalid ⊢
              have hrest := ih (s := (b :: s).drop c.utf8Size) (by omega)
                fun hmem => hvalid (List.mem_cons_of_mem _ hmem)
              show String.utf8EncodeChar c ++ encode (toText _) = _
              rw [hrest, ← hsplit]

/-- Encoded characters have no stray byte. -/
theorem runesUpTo_encode {cs : List Char} {n : Nat} (h : (encode cs).length ≤ n) :
    runesUpTo n (encode cs) = cs.map some := by
  induction cs generalizing n with
  | nil => cases n <;> rfl
  | cons c cs ih =>
      have hlength : (encode (c :: cs)).length = c.utf8Size + (encode cs).length := by
        rw [encode, List.flatMap_cons, List.length_append, String.length_utf8EncodeChar]
        rfl
      have hpos := c.utf8Size_pos
      cases n with
      | zero => omega
      | succ n =>
          have hdrop : (encode (c :: cs)).drop c.utf8Size = encode cs := by
            rw [encode, List.flatMap_cons, ← String.length_utf8EncodeChar c, List.drop_left]
            rfl
          have hfirst : decodeRune (encode (c :: cs)) = some c := decodeRune_encode c (encode cs)
          rw [runesUpTo_of_decodeRune hfirst, hdrop, ih (by omega), List.map_cons]

theorem runes_encode (cs : List Char) : runes (encode cs) = cs.map some :=
  runesUpTo_encode (Nat.le_refl _)

/-- The characters of a string encode to the string exactly when it is UTF-8. -/
theorem encode_toText_runes_iff (s : List UInt8) :
    encode (toText (runes s)) = s ↔ ∃ cs, encode cs = s := by
  constructor
  · intro h
    exact ⟨_, h⟩
  · rintro ⟨cs, rfl⟩
    rw [runes_encode, toText_map_some]

/-- A string with stray bytes is replaced by a longer one. -/
theorem encode_toText_runes_ne_iff (s : List UInt8) :
    encode (toText (runes s)) ≠ s ↔ s.length < (encode (toText (runes s))).length := by
  have hlength := length_encode_runesUpTo (Nat.le_refl s.length)
  constructor
  · intro hne
    have hmem : none ∈ runes s := by
      by_contra hvalid
      exact hne (encode_runesUpTo (Nat.le_refl _) hvalid)
    have hpos : 0 < (runes s).countP Option.isNone :=
      List.countP_pos_iff.mpr ⟨none, hmem, rfl⟩
    show s.length < (encode (toText (runesUpTo s.length s))).length
    rw [hlength]
    show s.length < s.length + 2 * (runes s).countP Option.isNone
    omega
  · intro hlt heq
    rw [heq] at hlt
    exact Nat.lt_irrefl _ hlt

/-! ## Text in a file -/

/-- What was encoded first is what the bytes begin with. -/
theorem isPrefix_of_encode {cs cs' : List Char} (h : encode cs <+: encode cs') : cs <+: cs' := by
  induction cs generalizing cs' with
  | nil => exact List.nil_prefix
  | cons c cs ih =>
      obtain ⟨more, hmore⟩ := h
      have hsplit : encode (c :: cs) ++ more =
          String.utf8EncodeChar c ++ (encode cs ++ more) := List.append_assoc _ _ _
      rw [hsplit] at hmore
      cases cs' with
      | nil => exact absurd (List.append_eq_nil_iff.mp hmore).1 (utf8EncodeChar_ne_nil c)
      | cons d cs' =>
          have hcons : encode (d :: cs') = String.utf8EncodeChar d ++ encode cs' := rfl
          have hchar : some c = some d := by
            rw [← decodeRune_encode c (encode cs ++ more), hmore, hcons, decodeRune_encode]
          obtain rfl := Option.some.inj hchar
          rw [hcons] at hmore
          exact List.cons_prefix_cons.mpr ⟨rfl, ih ⟨more, List.append_cancel_left hmore⟩⟩

/-- The object in a file, which must be UTF-8. -/
def readObject (bytes : List UInt8) : Option (Object (List Char)) :=
  if none ∈ runes bytes then none else Json.readObject (toText (runes bytes))

theorem readObject_encode (cs : List Char) : readObject (encode cs) = Json.readObject cs := by
  have hvalid : none ∉ cs.map some := by simp
  rw [readObject, runes_encode, if_neg hvalid, toText_map_some]

/-- A part of an object's bytes is no object. -/
theorem eq_of_readObject_isPrefix {bytes : List UInt8} {ms : Object (List Char)}
    {ms' : Object Runes} (h : readObject bytes = some ms)
    (hpre : bytes <+: encode (marshalIndent ms')) : bytes = encode (marshalIndent ms') := by
  unfold readObject at h
  split at h
  · contradiction
  · rename_i hvalid
    have hbytes : encode (toText (runes bytes)) = bytes := encode_runesUpTo (Nat.le_refl _) hvalid
    rw [← hbytes] at hpre ⊢
    rw [Json.eq_of_readObject_isPrefix h (isPrefix_of_encode hpre)]

end Lib.Utf8
