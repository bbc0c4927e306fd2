import Mathlib
import Smaug.Proofs.Parse.Resumed
import Smaug.Proofs.Token.Numeral

/-! # Integers in an expression and in a pattern

Where a numeral is to be read, there are two outcomes.  If its value is below the bound of integers,
the token is passed and becomes one node of that value.  If not, the error carries the numeral as it
is written, and the parse stays where it is, so that going on after the failure starts at the
numeral.
-/

namespace Smaug.Parse

section
variable (w : Numeral) (setup : Setup) (s : State)

def State.tooLarge : Outcome NodeId :=
  .stopped (.error {
    cause := .numberTooLarge w.text
    span := s.current.span
    file := some setup.file }) s

def State.numeralRead : Outcome NodeId :=
  if w.value < 2 ^ 64 then
    .done s.nodes.size (s.advance.push ⟨.integer w.value, s.current.span⟩)
  else s.tooLarge w setup

def State.numeralMatched : Outcome NodeId :=
  if w.value < 2 ^ 64 then
    .done (s.nodes.size + 1) ((s.advance.push ⟨.integer w.value, s.current.span⟩).push
      ⟨.literalPattern s.nodes.size, s.current.span⟩)
  else s.tooLarge w setup

end

section
variable {setup : Setup} {s : State} {w : Numeral}

theorem primary_numeral (hk : s.kind = .integer) (hv : s.current.value = w.text) :
    primary setup s = s.numeralRead w setup := by
  have hkind : s.current.kind = .integer := hk
  have hinteger := w.integer?_text
  rw [primary, bind_of_done (rfl : look State.current setup s = .done s.current s),
    State.numeralRead]
  by_cases h : w.value < 2 ^ 64
  · rw [if_pos h] at hinteger ⊢
    simp only [hkind, hv, hinteger]
    rw [bind_of_done (rfl : advance setup s = .done s.current s.advance), push,
      State.advance_nodes]
  · rw [if_neg h] at hinteger ⊢
    simp only [hkind, hv, hinteger]
    rfl

/-- A numeral is an operand. -/
theorem operand_integer (ht : setup.table = .standard) (hk : s.kind = .integer) (n : Nat) :
    operand (Rule.runWith (n + 1)) setup s = primary setup s := by
  have hf : setup.table.operand s.kind = some .primary := by
    rw [ht, hk]
    rfl
  simp only [operand, Bind.bind, Parse.bind, given, look, hf]
  rfl

theorem literalPattern_numeral (hk : s.kind = .integer) (hv : s.current.value = w.text) (n : Nat) :
    literalPattern (Rule.runWith (n + 1)) setup s = s.numeralMatched w setup := by
  have hprimary : Rule.runWith (n + 1) (.form .primary) setup s = s.numeralRead w setup :=
    primary_numeral hk hv
  rw [State.numeralRead] at hprimary
  rw [State.numeralMatched]
  by_cases h : w.value < 2 ^ 64
  · rw [if_pos h] at hprimary ⊢
    generalize hinteger : (⟨.integer w.value, s.current.span⟩ : Node) = integer at hprimary ⊢
    have hspan : spanOf s.nodes.size setup (s.advance.push integer) =
        .done s.current.span (s.advance.push integer) :=
      spanOf_done.2 ⟨integer, by simp [State.push], by rw [← hinteger], rfl⟩
    rw [literalPattern, bind_of_done hprimary, bind_of_done hspan, push]
    simp [State.push]
  · rw [if_neg h] at hprimary ⊢
    rw [literalPattern, bind_of_stopped hprimary]
    rfl

/-! ## One level deeper -/

theorem nested_tooLarge {step : Parse NodeId} (hd : s.depth < setup.maxDepth)
    (h : step setup s.deeper = s.deeper.tooLarge w setup) :
    nested step setup s = s.tooLarge w setup := by
  rw [nested_apply, if_pos hd, h]
  rfl

theorem nested_numeralMatched {step : Parse NodeId} (hd : s.depth < setup.maxDepth)
    (h : step setup s.deeper = s.deeper.numeralMatched w setup) :
    nested step setup s = s.numeralMatched w setup := by
  rw [State.numeralMatched] at h ⊢
  by_cases hw : w.value < 2 ^ 64
  · rw [if_pos hw, deeper_advance] at h
    rw [if_pos hw]
    exact nested_done.2 ⟨hd, (s.advance.deeper.push _).push _, h, rfl⟩
  · rw [if_neg hw] at h ⊢
    exact nested_tooLarge hd h

theorem exists_fuel (setup : Setup) (s : State) : ∃ n, Rule.fuel setup s = n + 3 :=
  Nat.exists_eq_add_of_le' (by unfold Rule.fuel; omega)

/-- A numeral is an expression up to a token that does not bind it any further. -/
theorem expression_numeral (ht : setup.table = .standard) (hk : s.kind = .integer)
    (hv : s.current.value = w.text) (hd : s.depth < setup.maxDepth) {power : Power}
    (hs : w.value < 2 ^ 64 →
      ∀ entry ∈ setup.table.suffix s.advance.kind, ¬entry.1.tighter power) :
    (Rule.expression power).parse setup s = s.numeralRead w setup := by
  obtain ⟨n, hn⟩ := exists_fuel setup s
  have hoperand : operand (Rule.runWith (n + 2)) setup s.deeper = s.deeper.numeralRead w setup :=
    (operand_integer (s := s.deeper) ht hk (n + 1)).trans (primary_numeral hk hv)
  rw [Rule.parse, hn]
  change nested (operand (Rule.runWith (n + 2)) >>= fun left =>
    Rule.runWith (n + 2) (.continuation left power)) setup s = _
  rw [State.numeralRead] at hoperand ⊢
  by_cases h : w.value < 2 ^ 64
  · rw [if_pos h, deeper_advance] at hoperand
    rw [if_pos h]
    refine nested_done.2 ⟨hd, s.advance.deeper.push _, ?_, rfl⟩
    rw [bind_of_done hoperand]
    exact continuation_loose (Rule.runWith (n + 1)) (s := s.advance.deeper.push _) (hs h) _
  · rw [if_neg h] at hoperand ⊢
    exact nested_tooLarge hd (bind_of_stopped hoperand)

/-- A numeral is a pattern. -/
theorem pattern_numeral (ht : setup.table = .standard) (hk : s.kind = .integer)
    (hv : s.current.value = w.text) (hd : s.depth < setup.maxDepth) (allowDefault : Bool) :
    (Rule.pattern .any allowDefault).parse setup s = s.numeralMatched w setup := by
  obtain ⟨n, hn⟩ := exists_fuel setup s
  have hf : setup.table.pattern s.deeper.kind = some .literal := by
    rw [ht, show s.deeper.kind = .integer from hk]
    rfl
  rw [Rule.parse, hn]
  change nested _ setup s = _
  refine nested_numeralMatched hd ?_
  simp only [Bind.bind, Parse.bind, given, look, hf]
  exact literalPattern_numeral (s := s.deeper) hk hv n

end

/-- A numeral is read exactly, however many digits and underscores it has.  As a text it is one
token.  As an operand, or as an expression or a pattern by itself, it is passed and becomes a node
of its value and span if the value is below the bound, and a pattern of that node in a pattern.  If
not, the error carries the numeral unchanged, and nothing has moved. -/
theorem numeral_exact (w : Numeral) :
    (∀ (reader : Reader) (rest : List Char), reader.isPlaced → reader.ahead = w.chars ++ rest →
      (∀ c ∈ rest.head?, Lexeme.continuesInteger c = false) →
      let stop := reader.offset + Text.size w.chars
      reader.next =
        (.token ⟨.integer, w.text, .wrap reader.offset stop⟩,
          { reader with ahead := rest, offset := stop })) ∧
    ∀ (file : String) (options : Options) (span : Span) (next : Token) (ahead : List Token)
      (nodes : Array Node) (depth lastStop : Nat),
      let setup := Setup.standard file options
      let s : State := ⟨⟨.integer, w.text, span⟩, next :: ahead, nodes, depth, lastStop⟩
      let passed (nodes : Array Node) : State := ⟨next, ahead, nodes, depth, span.stop⟩
      let integer := nodes.push ⟨.integer w.value, span⟩
      let refused : Outcome NodeId := .stopped (.error {
        cause := .numberTooLarge w.text, span, expected := [], file := some file }) s
      let read : Outcome NodeId :=
        if w.value < 2 ^ 64 then .done nodes.size (passed integer) else refused
      let matched : Outcome NodeId :=
        if w.value < 2 ^ 64 then
          .done (nodes.size + 1) (passed (integer.push ⟨.literalPattern nodes.size, span⟩))
        else refused
      (Rule.form .primary).parse setup s = read ∧
        (∀ fuel, operand (Rule.runWith (fuel + 1)) setup s = read) ∧
        (∀ allowDefault, (Rule.pattern .literal allowDefault).parse setup s = matched) ∧
        (depth < options.maxDepth →
          (∀ power,
            (w.value < 2 ^ 64 →
              ∀ entry ∈ Table.suffixes next.kind, ¬entry.1.tighter power) →
            (Rule.expression power).parse setup s = read) ∧
          ∀ allowDefault, (Rule.pattern .any allowDefault).parse setup s = matched) := by
  refine ⟨fun reader rest hp ha hrest => Reader.next_numeral hp ha hrest, ?_⟩
  intro file options span next ahead nodes depth lastStop setup s passed integer refused read
    matched
  have hk : s.kind = .integer := rfl
  have hv : s.current.value = w.text := rfl
  obtain ⟨n, hn⟩ := exists_fuel setup s
  refine ⟨?_, fun fuel => ?_, fun allowDefault => ?_, fun hd => ⟨fun power hs => ?_, ?_⟩⟩
  · rw [Rule.parse, hn]
    exact primary_numeral hk hv
  · exact (operand_integer rfl hk fuel).trans (primary_numeral hk hv)
  · rw [Rule.parse, hn]
    exact literalPattern_numeral hk hv (n + 1)
  · exact expression_numeral rfl hk hv hd hs
  · exact pattern_numeral rfl hk hv hd

/-- On both sides of the bound, before a closing parenthesis. -/
theorem numeral_exact_bound :
    let largest : Numeral :=
      ⟨'0', ['_', '1', '8', '4', '4', '6', '7', '4', '4', '0', '7', '3', '7', '0', '9', '5', '5',
        '1', '6', '1', '5', '_'], rfl, List.all_eq_true.1 rfl⟩
    let tooLarge : Numeral :=
      ⟨'1', ['8', '4', '4', '6', '7', '4', '4', '0', '7', '3', '7', '0', '9', '5', '5', '1', '6',
        '1', '6'], rfl, List.all_eq_true.1 rfl⟩
    let reader : Reader := { file := "a.sm", ahead := largest.chars ++ [')'], offset := 4 }
    let setup := Setup.standard "a.sm" {}
    let closing : Token := ⟨.closeParen, ")", ⟨27, 28⟩⟩
    let s (w : Numeral) : State :=
      ⟨⟨.integer, w.text, ⟨4, 27⟩⟩, [closing, .endAt (.emptyAt 28)], #[], 0, 4⟩
    reader.isPlaced ∧
      reader.next =
        (.token ⟨.integer, largest.text, ⟨4, 27⟩⟩, { reader with ahead := [')'], offset := 27 }) ∧
      largest.value = 2 ^ 64 - 1 ∧ tooLarge.value = 2 ^ 64 ∧
      (Rule.expression .lowest).parse setup (s largest) =
        .done 0 ⟨closing, [.endAt (.emptyAt 28)], #[⟨.integer (2 ^ 64 - 1), ⟨4, 27⟩⟩], 0, 27⟩ ∧
      (Rule.pattern .any false).parse setup (s tooLarge) =
        .stopped (.error {
          cause := .numberTooLarge tooLarge.text, span := ⟨4, 27⟩, file := some "a.sm" })
          (s tooLarge) := by
  intro largest tooLarge reader setup closing s
  have hlargest : largest.value = 2 ^ 64 - 1 := by decide +kernel
  have htooLarge : tooLarge.value = 2 ^ 64 := by decide +kernel
  have hnext := (numeral_exact largest).1 reader [')'] rfl rfl (by simp [Lexeme.continuesInteger])
  obtain ⟨-, -, -, hread⟩ := (numeral_exact largest).2 "a.sm" {} ⟨4, 27⟩ closing
    [.endAt (.emptyAt 28)] #[] 0 4
  obtain ⟨-, -, -, hrefused⟩ := (numeral_exact tooLarge).2 "a.sm" {} ⟨4, 27⟩ closing
    [.endAt (.emptyAt 28)] #[] 0 4
  have hexpression := (hread (by decide)).1 .lowest fun _ => by simp [closing, Table.suffixes]
  have hpattern := (hrefused (by decide)).2 false
  rw [hlargest, if_pos (by decide)] at hexpression
  rw [htooLarge, if_neg (by decide)] at hpattern
  exact ⟨rfl, hnext, hlargest, htooLarge, hexpression, hpattern⟩

end Smaug.Parse
