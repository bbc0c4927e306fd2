import Mathlib
import Smaug.Proofs.Token.File
import Smaug.Text.Character

/-! # Integers are read by their grammar

A numeral is a digit with digits and underscores after it, as many as one likes of either.  It is
one token, whose value is its text unchanged, and it stands for the number that its digits are
written for in decimal, unless that reaches the bound of integers.
-/

namespace Smaug

structure Numeral where
  first : Char
  rest : List Char
  isDigit_first : first.isDigit
  continues_rest : ∀ c ∈ rest, Lexeme.continuesInteger c

namespace Numeral

def chars (w : Numeral) : List Char := w.first :: w.rest

def text (w : Numeral) : String := String.ofList w.chars

def digits (w : Numeral) : List Nat :=
  (w.chars.filter Char.isDigit).map fun c => c.toNat - '0'.toNat

/-- The number that the digits are written for in decimal. -/
def value (w : Numeral) : Nat := Nat.ofDigits 10 w.digits.reverse

end Numeral

namespace Text

/-- Reading digits from the left adds the digits read so far at their place. -/
theorem digitsValue?_eq (value : Nat) {cs : List Char} (h : ∀ c ∈ cs, c.isDigit) :
    digitsValue? value cs =
      some (Nat.ofDigits 10 (cs.map fun c => c.toNat - '0'.toNat).reverse +
        10 ^ cs.length * value) := by
  induction cs generalizing value with
  | nil => simp [digitsValue?]
  | cons c cs ih =>
    obtain ⟨hc, hcs⟩ := List.forall_mem_cons.1 h
    rw [digitsValue?, if_pos hc, ih _ hcs, List.map_cons, List.reverse_cons, Nat.ofDigits_append,
      Nat.ofDigits_singleton, List.length_reverse, List.length_map, List.length_cons]
    congr 1
    ring

/-- Digits alone are read as what they are written for. -/
theorem decimal?_eq {c : Char} {cs : List Char} (hc : c.isDigit) (h : ∀ d ∈ cs, d.isDigit) :
    decimal? (c :: cs) =
      some (Nat.ofDigits 10 ((c :: cs).map fun c => c.toNat - '0'.toNat).reverse) := by
  have hplus : c ≠ '+' := by
    rintro rfl
    cases hc
  have hread : decimal? (c :: cs) = digitsValue? 0 (c :: cs) := by
    unfold decimal?
    split <;> simp_all
  rw [hread, digitsValue?_eq 0 (List.forall_mem_cons.2 ⟨hc, h⟩), Nat.mul_zero, Nat.add_zero]

end Text

namespace Numeral

/-- Without its underscores a numeral is its digits. -/
theorem filter_chars (w : Numeral) :
    w.chars.filter (· != '_') = w.first :: w.rest.filter Char.isDigit := by
  have hfirst : w.first ≠ '_' := by
    intro h
    simpa [h] using w.isDigit_first
  rw [chars, List.filter_cons_of_pos (by simpa using hfirst)]
  congr 1
  refine List.filter_congr fun c hc => ?_
  have hcontinues := w.continues_rest c hc
  by_cases hu : c = '_'
  · subst hu
    rfl
  · have hdigit : c.isDigit := by simpa [Lexeme.continuesInteger, hu] using hcontinues
    simp [hu, hdigit]

/-- A numeral stands for its value, if that stays below the bound. -/
theorem integer?_text (w : Numeral) :
    Text.integer? w.text = if w.value < 2 ^ 64 then some w.value else none := by
  have hdigits : w.chars.filter Char.isDigit = w.first :: w.rest.filter Char.isDigit :=
    List.filter_cons_of_pos w.isDigit_first
  have hdecimal : Text.decimal? (w.chars.filter (· != '_')) = some w.value := by
    rw [filter_chars, Text.decimal?_eq w.isDigit_first fun d hd => (List.mem_filter.1 hd).2,
      ← hdigits]
    rfl
  rw [Text.integer?, text, String.toList_ofList, hdecimal]
  simp only [Option.filter, decide_eq_true_eq]
  rfl

end Numeral

/-! ## Reading a numeral -/

namespace Lexeme

theorem digits_start_nothing_else :
    (List.range' 48 10).all (fun n =>
      !Text.isBlank (Char.ofNat n) && !startsName (Char.ofNat n)) := by decide +kernel

/-- At a digit there is an integer, as long as digits and underscores follow. -/
theorem first_digit {c : Char} (hc : c.isDigit) (cs : List Char) :
    first c cs =
      let digits := c :: cs.takeWhile continuesInteger
      ⟨digits.length, .token .integer (String.ofList digits)⟩ := by
  have hrange : 48 ≤ c.toNat ∧ c.toNat ≤ 57 := Char.isDigit_iff_toNat.1 hc
  have hnone : Text.isBlank c = false ∧ startsName c = false := by
    have hall := List.all_eq_true.1 digits_start_nothing_else c.toNat
      (List.mem_range'_1.2 (by omega))
    simpa using hall
  have hne {d : Char} (hd : d.isDigit = false) : c ≠ d := by
    rintro rfl
    simp [hc] at hd
  simp [first, hnone.1, hnone.2, hne (d := '/') rfl, hne (d := '"') rfl, hc]

end Lexeme

/-- A numeral that no digit or underscore follows is one token, with its text for a value. -/
theorem Reader.next_numeral {reader : Reader} {w : Numeral} {rest : List Char}
    (hp : reader.isPlaced) (ha : reader.ahead = w.chars ++ rest)
    (hrest : ∀ c ∈ rest.head?, Lexeme.continuesInteger c = false) :
    let stop := reader.offset + Text.size w.chars
    reader.next =
      (.token ⟨.integer, w.text, .wrap reader.offset stop⟩,
        { reader with ahead := rest, offset := stop }) := by
  have htail : rest.takeWhile Lexeme.continuesInteger = [] := by
    cases rest with
    | nil => rfl
    | cons c rest => exact List.takeWhile_cons_of_neg (by simp [hrest c rfl])
  have hdigits : (w.rest ++ rest).takeWhile Lexeme.continuesInteger = w.rest := by
    rw [List.takeWhile_append_of_pos w.continues_rest, htail, List.append_nil]
  have hfirst : Lexeme.first w.first (w.rest ++ rest) =
      ⟨w.chars.length, .token .integer w.text⟩ := by
    rw [Lexeme.first_digit w.isDigit_first, hdigits]
    rfl
  have hpass : reader.pass w.chars.length =
      { reader with ahead := rest, offset := reader.offset + Text.size w.chars } := by
    rw [pass, ha, List.take_left, List.drop_left]
  have hcons : reader.ahead = w.first :: (w.rest ++ rest) := ha
  rw [next_cons hcons hp, hfirst]
  simp only [hpass]

end Smaug
