import Mathlib.Data.List.Basic
import Mathlib.Tactic.Common

/-!
# Text

Suffixes of strings, numbers in decimal, and lines of separated fields: what a
file name or a table of numbers needs to be taken apart again.
-/

namespace Lib

/-! ## Suffixes -/

section Suffix

variable {α : Type} [DecidableEq α]

/-- `s` ends in `suffix`. -/
def hasSuffix (s suffix : List α) : Bool :=
  decide (suffix.length ≤ s.length) && s.drop (s.length - suffix.length) == suffix

/-- `s` without `suffix` at its end; a string that does not end in it is
returned as it is. -/
def trimSuffix (s suffix : List α) : List α :=
  if hasSuffix s suffix then s.take (s.length - suffix.length) else s

theorem hasSuffix_iff {s suffix : List α} : hasSuffix s suffix = true ↔ suffix <:+ s := by
  rw [hasSuffix, Bool.and_eq_true, decide_eq_true_iff, beq_iff_eq]
  constructor
  · rintro ⟨-, h⟩
    exact List.suffix_iff_eq_drop.mpr h.symm
  · intro h
    exact ⟨h.length_le, (List.suffix_iff_eq_drop.mp h).symm⟩

@[simp] theorem hasSuffix_append (s suffix : List α) : hasSuffix (s ++ suffix) suffix = true :=
  hasSuffix_iff.mpr (List.suffix_append s suffix)

@[simp] theorem trimSuffix_append (s suffix : List α) :
    trimSuffix (s ++ suffix) suffix = s := by
  rw [trimSuffix, if_pos (hasSuffix_append s suffix), List.length_append, Nat.add_sub_cancel,
    List.take_left]

theorem trimSuffix_of_not {s suffix : List α} (h : ¬ hasSuffix s suffix = true) :
    trimSuffix s suffix = s :=
  if_neg h

theorem trimSuffix_append_of_hasSuffix {s suffix : List α} (h : hasSuffix s suffix = true) :
    trimSuffix s suffix ++ suffix = s := by
  rw [trimSuffix, if_pos h]
  exact List.suffix_iff_eq_append.mp (hasSuffix_iff.mp h)

end Suffix

/-! ## Lines and fields -/

section Lines

variable {α : Type} [DecidableEq α]

/-- Lines, each ended by `nl`. -/
def joinLines (nl : α) (lines : List (List α)) : List α := lines.flatMap fun line => line ++ [nl]

/-- Lines are found again by splitting, with an empty rest after the last `nl`. -/
theorem splitOn_joinLines {nl : α} {lines : List (List α)} (h : ∀ line ∈ lines, nl ∉ line) :
    (joinLines nl lines).splitOn nl = lines ++ [[]] := by
  induction lines with
  | nil => rfl
  | cons line lines ih =>
      have hline : nl ∉ line := h line List.mem_cons_self
      have hrest : ∀ l ∈ lines, nl ∉ l := fun l hl => h l (List.mem_cons_of_mem line hl)
      rw [joinLines, List.flatMap_cons, List.append_assoc, List.singleton_append,
        List.splitOn_append_cons_self_of_not_mem hline, List.cons_append]
      exact congrArg (line :: ·) (ih hrest)

/-- Every line has its `nl`. -/
theorem count_joinLines {nl : α} {lines : List (List α)} (h : ∀ line ∈ lines, nl ∉ line) :
    (joinLines nl lines).count nl = lines.length := by
  induction lines with
  | nil => rfl
  | cons line lines ih =>
      have hline : line.count nl = 0 := List.count_eq_zero.mpr (h line List.mem_cons_self)
      have hrest := ih fun l hl => h l (List.mem_cons_of_mem line hl)
      rw [joinLines] at hrest
      rw [joinLines, List.flatMap_cons, List.count_append, List.count_append, hline, hrest,
        List.count_singleton_self, List.length_cons]
      omega

/-- A line that is cut has lost its `nl`. -/
theorem count_take_line {nl : α} {line : List α} (h : nl ∉ line) (n : Nat) :
    ((line ++ [nl]).take n).count nl = if (line ++ [nl]).length ≤ n then 1 else 0 := by
  have hline : line.count nl = 0 := List.count_eq_zero.mpr h
  by_cases hn : (line ++ [nl]).length ≤ n
  · rw [if_pos hn, List.take_of_length_le hn, List.count_append, hline,
      List.count_singleton_self]
  · have hcut : n ≤ line.length := by
      rw [List.length_append, List.length_singleton] at hn
      omega
    rw [if_neg hn, List.take_append_of_le_length hcut, List.count_eq_zero]
    exact fun hmem => h (List.mem_of_mem_take hmem)

/-- A text that ends in `nl` has all of them only as a whole. -/
theorem length_le_of_count_take {nl : α} {text : List α} {n : Nat}
    (h : ((text ++ [nl]).take n).count nl = (text ++ [nl]).count nl) :
    (text ++ [nl]).length ≤ n := by
  by_contra hn
  have hcut : n ≤ text.length := by
    rw [List.length_append, List.length_singleton] at hn
    omega
  rw [List.take_append_of_le_length hcut, List.count_append, List.count_singleton_self] at h
  have hle : (text.take n).count nl ≤ text.count nl := (List.take_sublist n text).count_le nl
  omega

end Lines

/-! ## Decimals -/

/-- `%d` of a natural number. -/
def decimal (n : Nat) : List Char := Nat.toDigits 10 n

def readDecimal (s : List Char) : Nat := Nat.ofDigitChars 10 s 0

@[simp] theorem readDecimal_decimal (n : Nat) : readDecimal (decimal n) = n :=
  Nat.ofDigitChars_ten_toDigits

/-- A decimal holds digits only. -/
theorem not_mem_decimal {c : Char} (hc : c.isDigit = false) (n : Nat) : c ∉ decimal n := by
  intro h
  have hdigit : c.isDigit = true := Nat.isDigit_of_mem_toDigits (by decide) (by decide) h
  rw [hc] at hdigit
  contradiction

/-- Decimals with separators between them. -/
def joinDecimals (sep : Char) (ns : List Nat) : List Char := [sep].intercalate (ns.map decimal)

/-- Numbers are found again by splitting at the separator and reading decimals. -/
theorem map_readDecimal_splitOn {sep : Char} (hsep : sep.isDigit = false) {ns : List Nat}
    (hns : ns ≠ []) : ((joinDecimals sep ns).splitOn sep).map readDecimal = ns := by
  have hfields : ∀ field ∈ ns.map decimal, sep ∉ field := by
    intro field hfield
    obtain ⟨n, -, rfl⟩ := List.mem_map.mp hfield
    exact not_mem_decimal hsep n
  rw [joinDecimals, List.splitOn_intercalate sep hfields (by simpa using hns), List.map_map]
  simp [Function.comp_def]

/-- Letters other than the separator and the digits do not occur. -/
theorem not_mem_joinDecimals {c sep : Char} (hc : c.isDigit = false) (hne : c ≠ sep)
    (ns : List Nat) : c ∉ joinDecimals sep ns := by
  induction ns with
  | nil => exact List.not_mem_nil
  | cons n ns ih =>
      cases ns with
      | nil =>
          rw [joinDecimals, List.map_singleton, List.intercalate_singleton]
          exact not_mem_decimal hc n
      | cons m ns =>
          rw [joinDecimals, List.map_cons, List.map_cons, List.intercalate_cons_cons,
            ← List.map_cons]
          simp only [List.mem_append, List.mem_singleton, not_or]
          exact ⟨⟨not_mem_decimal hc n, hne⟩, ih⟩

/-! ## Numbers in a text -/

/-- The numbers in a text: its longest runs of digits. -/
def numbersIn (s : List Char) : List Nat :=
  ((s.splitOnP fun c => !c.isDigit).filter fun run => !run.isEmpty).map readDecimal

/-- `%*d`: a decimal with blanks before it up to the width. -/
def padded (width n : Nat) : List Char := (decimal n).leftpad width ' '

/-- What is not a digit ends a number. -/
theorem numbersIn_append_cons {c : Char} (hc : c.isDigit = false) (s t : List Char) :
    numbersIn (s ++ c :: t) = numbersIn s ++ numbersIn t := by
  have hsep : (fun c : Char => !c.isDigit) c = true := by simp [hc]
  unfold numbersIn
  rw [List.splitOnP_append_cons s t hsep, List.filter_append, List.map_append]

theorem numbersIn_append_of_no_digit {s : List Char} (h : ∀ c ∈ s, c.isDigit = false)
    (t : List Char) : numbersIn (s ++ t) = numbersIn t := by
  induction s with
  | nil => rfl
  | cons c s ih =>
      have hc : c.isDigit = false := h c List.mem_cons_self
      have hcons := numbersIn_append_cons hc [] (s ++ t)
      rw [List.nil_append] at hcons
      rw [List.cons_append, hcons, ih fun c hc => h c (List.mem_cons_of_mem _ hc)]
      rfl

/-- Numbers with a separator between them are told apart. -/
theorem numbersIn_separated {sep : List Char} (hne : sep ≠ [])
    (h : ∀ c ∈ sep, c.isDigit = false) (s t : List Char) :
    numbersIn (s ++ (sep ++ t)) = numbersIn s ++ numbersIn t := by
  cases sep with
  | nil => contradiction
  | cons c sep =>
      rw [List.cons_append, numbersIn_append_cons (h c List.mem_cons_self),
        numbersIn_append_of_no_digit fun c hc => h c (List.mem_cons_of_mem _ hc)]

@[simp] theorem numbersIn_decimal (n : Nat) : numbersIn (decimal n) = [n] := by
  have hdigits : ∀ c ∈ decimal n, (fun c : Char => !c.isDigit) c = false := by
    intro c hc
    have hdigit : c.isDigit = true := Nat.isDigit_of_mem_toDigits (by decide) (by decide) hc
    simp [hdigit]
  have hne : decimal n ≠ [] := Nat.toDigits_ne_nil
  unfold numbersIn
  rw [List.splitOnP_eq_singleton hdigits]
  simp [hne]

@[simp] theorem numbersIn_padded (width n : Nat) : numbersIn (padded width n) = [n] := by
  have hblanks : ∀ c ∈ List.replicate (width - (decimal n).length) ' ', c.isDigit = false := by
    intro c hc
    rw [List.eq_of_mem_replicate hc]
    rfl
  rw [padded, List.leftpad, numbersIn_append_of_no_digit hblanks, numbersIn_decimal]

theorem not_mem_padded {c : Char} (hc : c.isDigit = false) (hblank : c ≠ ' ') (width n : Nat) :
    c ∉ padded width n := by
  intro h
  rcases List.mem_append.mp h with hpad | hnum
  · exact hblank (List.eq_of_mem_replicate hpad)
  · exact not_mem_decimal hc n hnum

end Lib
