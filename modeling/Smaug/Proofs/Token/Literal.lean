import Mathlib
import Smaug.Proofs.Token.Regions

/-! # String literals are read by their grammar

The body of a string literal is a row of pieces: a character, or a backslash with the character
after it, whatever that is.  A literal is closed where a quote follows such a row.  Then it stands
for its pieces, one character for each, unless a pair is none of the three that stand for something.
-/

namespace Smaug

inductive Piece where
  | plain (c : Char) (h : c ≠ '"' ∧ c ≠ '\\')
  | pair (escape : Char)

namespace Piece

def chars : Piece → List Char
  | plain c _ => [c]
  | pair escape => ['\\', escape]

/-- The character that a pair stands for, for the three pairs that there are. -/
def unescape? : Char → Option Char
  | '"' => some '"'
  | '\\' => some '\\'
  | 'n' => some '\n'
  | _ => none

def value? : Piece → Option Char
  | plain c _ => some c
  | pair escape => unescape? escape

def text (body : List Piece) : List Char := body.flatMap chars

/-- The text that a row of pieces stands for, if every one of them stands for something. -/
def decoded? (body : List Piece) : Option (List Char) := body.mapM value?

@[simp] theorem text_nil : text [] = [] := rfl

@[simp] theorem text_cons (piece : Piece) (body : List Piece) :
    text (piece :: body) = piece.chars ++ text body := rfl

@[simp] theorem text_append (front back : List Piece) :
    text (front ++ back) = text front ++ text back :=
  List.flatMap_append

theorem decoded?_cons (piece : Piece) (body : List Piece) :
    decoded? (piece :: body) = piece.value?.bind fun c => (decoded? body).map (c :: ·) := by
  simp [decoded?, Option.map_eq_bind]

theorem value?_eq_none {piece : Piece} (h : piece.value? = none) :
    ∃ escape, piece = pair escape ∧ unescape? escape = none := by
  cases piece with
  | plain c hc => cases h
  | pair escape => exact ⟨escape, rfl, h⟩

/-- Where not every piece stands for something, there is a first that does not. -/
theorem exists_first_bad {body : List Piece} (h : decoded? body = none) :
    ∃ good escape more value, body = good ++ pair escape :: more ∧ decoded? good = some value ∧
      unescape? escape = none := by
  induction body with
  | nil => cases h
  | cons piece body ih =>
    cases hp : piece.value? with
    | none =>
      obtain ⟨escape, rfl, he⟩ := value?_eq_none hp
      exact ⟨[], escape, body, [], rfl, rfl, he⟩
    | some c =>
      have hb : decoded? body = none := by
        simpa [decoded?_cons, hp] using h
      obtain ⟨good, escape, more, value, rfl, hg, he⟩ := ih hb
      exact ⟨piece :: good, escape, more, c :: value, rfl, by simp [decoded?_cons, hp, hg], he⟩

end Piece

namespace Lexeme

open Piece

/-! ## Where a literal ends -/

theorem bodyLength?_text (count : Nat) (body : List Piece) (rest : List Char) :
    bodyLength? count (text body ++ '"' :: rest) = some (count + (text body).length) := by
  induction body generalizing count with
  | nil => rfl
  | cons piece body ih =>
    cases piece with
    | plain c hc =>
      simp only [text_cons, chars, List.cons_append, List.nil_append, List.length_cons]
      rw [bodyLength?, ih]
      · congr 1
        omega
      · simpa using hc.1
      · intro d cs he
        exact absurd he hc.2
    | pair escape =>
      simp only [text_cons, chars, List.cons_append, List.nil_append, List.length_cons]
      rw [bodyLength?, ih]
      congr 1
      omega

theorem exists_text_of_bodyLength? {count n : Nat} {cs : List Char}
    (h : bodyLength? count cs = some n) :
    ∃ body rest, cs = text body ++ '"' :: rest := by
  fun_induction bodyLength? count cs with
  | case1 count rest => exact ⟨[], rest, rfl⟩
  | case2 count escape cs ih =>
    obtain ⟨body, rest, rfl⟩ := ih h
    exact ⟨pair escape :: body, rest, rfl⟩
  | case3 count c cs hquote hescape ih =>
    obtain ⟨body, rest, rfl⟩ := ih h
    have hc : c ≠ '\\' := by
      rintro rfl
      have hne : text body ++ '"' :: rest ≠ [] := by simp
      obtain ⟨d, ds, hd⟩ := List.exists_cons_of_ne_nil hne
      exact hescape d ds rfl hd
    exact ⟨plain c ⟨hquote, hc⟩ :: body, rest, rfl⟩
  | case4 => cases h

/-! ## What a literal stands for -/

theorem decodeBody_piece {piece : Piece} {c : Char} (h : piece.value? = some c) (before : Nat)
    (decoded cs : List Char) :
    decodeBody before decoded (piece.chars ++ cs) =
      decodeBody (before + Text.size piece.chars) (c :: decoded) cs := by
  cases piece with
  | plain d hd =>
    cases h
    change decodeBody before decoded (c :: cs) = _
    rw [decodeBody]
    · rfl
    all_goals
      intros
      exact hd.2 ‹_›
  | pair escape =>
    change unescape? escape = some c at h
    unfold unescape? at h
    split at h <;> cases h <;> rfl

theorem decodeBody_bad {escape : Char} (h : unescape? escape = none) (before : Nat)
    (decoded cs : List Char) :
    decodeBody before decoded ((pair escape).chars ++ cs) = .error (escape, before) := by
  change decodeBody before decoded ('\\' :: escape :: cs) = _
  unfold unescape? at h
  split at h
  any_goals cases h
  rename_i hquote hslash hn
  exact decodeBody.eq_5 _ _ _ _ hquote hslash hn

/-- Pieces that stand for something are passed one by one. -/
theorem decodeBody_text {body : List Piece} {value : List Char} (h : decoded? body = some value)
    (before : Nat) (decoded cs : List Char) :
    decodeBody before decoded (text body ++ cs) =
      decodeBody (before + Text.size (text body)) (value.reverse ++ decoded) cs := by
  induction body generalizing before decoded value with
  | nil =>
    cases h
    rfl
  | cons piece body ih =>
    obtain ⟨c, hp, value, hb, rfl⟩ : ∃ c, piece.value? = some c ∧ ∃ cs, decoded? body = some cs ∧
        c :: cs = value := by
      simpa [decoded?_cons, Option.bind_eq_some_iff] using h
    have hstep : decodeBody before decoded (piece.chars ++ (text body ++ cs)) =
        decodeBody (before + Text.size piece.chars) (c :: decoded) (text body ++ cs) :=
      decodeBody_piece hp before decoded _
    rw [text_cons, List.append_assoc, hstep, ih hb, Text.size_append, List.reverse_cons,
      List.append_assoc, Nat.add_assoc]
    rfl

/-! ## The whole literal -/

theorem first_quote (cs : List Char) : first '"' cs = stringLiteral cs := by
  have hblank : Text.isBlank '"' = false := by decide
  simp [first, hblank]

theorem stringLiteral_unclosed {cs : List Char} (h : ∀ body rest, cs ≠ text body ++ '"' :: rest) :
    stringLiteral cs = ⟨cs.length + 1, .malformed .unterminatedString⟩ := by
  unfold stringLiteral
  cases hn : bodyLength? 0 cs with
  | none => rfl
  | some n =>
    obtain ⟨body, rest, hcs⟩ := exists_text_of_bodyLength? hn
    exact absurd hcs (h body rest)

theorem stringLiteral_closed (body : List Piece) (rest : List Char) :
    stringLiteral (text body ++ '"' :: rest) =
      match decodeBody 1 [] (text body) with
      | .ok value => ⟨(text body).length + 2, .token .string value⟩
      | .error (escape, before) => ⟨(text body).length + 2, .badEscape escape before⟩ := by
  have hn : bodyLength? 0 (text body ++ '"' :: rest) = some (text body).length := by
    rw [bodyLength?_text, Nat.zero_add]
  cases hd : decodeBody 1 [] (text body) with
  | ok value => simp [stringLiteral, hn, hd]
  | error escape => simp [stringLiteral, hn, hd]

theorem stringLiteral_decoded {body : List Piece} {value : List Char}
    (h : decoded? body = some value) (rest : List Char) :
    stringLiteral (text body ++ '"' :: rest) =
      ⟨(text body).length + 2, .token .string (String.ofList value)⟩ := by
  have hd := decodeBody_text h 1 [] []
  rw [List.append_nil, List.append_nil, decodeBody, List.reverse_reverse] at hd
  rw [stringLiteral_closed, hd]

theorem stringLiteral_bad {good : List Piece} {value : List Char} {escape : Char}
    (hg : decoded? good = some value) (he : unescape? escape = none) (more : List Piece)
    (rest : List Char) :
    stringLiteral (text (good ++ pair escape :: more) ++ '"' :: rest) =
      ⟨(text (good ++ pair escape :: more)).length + 2,
        .badEscape escape (1 + Text.size (text good))⟩ := by
  rw [stringLiteral_closed, text_append, text_cons, decodeBody_text hg, decodeBody_bad he]

end Lexeme

/-! ## Reading a literal -/

namespace Reader

open Piece

variable {reader : Reader} {cs : List Char}

theorem next_unclosed (hp : reader.isPlaced) (ha : reader.ahead = '"' :: cs)
    (h : ∀ body rest, cs ≠ text body ++ '"' :: rest) :
    let stop := reader.offset + Text.size reader.ahead
    reader.next =
      (.error { cause := .unterminatedString, span := .wrap reader.offset stop,
                file := some reader.file },
        { reader with ahead := [], offset := stop }) := by
  rw [next_cons ha hp, Lexeme.first_quote, Lexeme.stringLiteral_unclosed h]
  simp [pass, ha]

/-- The reader behind a literal that is closed. -/
theorem pass_literal {body : List Piece} {rest : List Char}
    (ha : reader.ahead = '"' :: (text body ++ '"' :: rest)) :
    reader.pass ((text body).length + 2) =
      { reader with
        ahead := rest
        offset := reader.offset + Text.size ('"' :: text body ++ ['"']) } := by
  have hsplit : reader.ahead = ('"' :: text body ++ ['"']) ++ rest := by simp [ha]
  have hlength : (text body).length + 2 = ('"' :: text body ++ ['"']).length := by simp
  rw [pass, hsplit, hlength, List.take_left, List.drop_left]

theorem next_decoded {body : List Piece} {value rest : List Char} (hp : reader.isPlaced)
    (ha : reader.ahead = '"' :: (text body ++ '"' :: rest)) (h : decoded? body = some value) :
    let stop := reader.offset + Text.size ('"' :: text body ++ ['"'])
    reader.next =
      (.token ⟨.string, String.ofList value, .wrap reader.offset stop⟩,
        { reader with ahead := rest, offset := stop }) := by
  rw [next_cons ha hp, Lexeme.first_quote, Lexeme.stringLiteral_decoded h]
  simp only [pass_literal ha]

theorem next_bad {good more : List Piece} {escape : Char} {value rest : List Char}
    (hp : reader.isPlaced)
    (ha : reader.ahead = '"' :: (text (good ++ pair escape :: more) ++ '"' :: rest))
    (hg : decoded? good = some value) (he : unescape? escape = none) :
    let start := reader.offset + 1 + Text.size (text good)
    reader.next =
      (.error { cause := .invalidEscape escape, span := .wrap start (start + 1 + escape.utf8Size),
                file := some reader.file },
        { reader with
          ahead := rest
          offset := reader.offset +
            Text.size ('"' :: text (good ++ pair escape :: more) ++ ['"']) }) := by
  rw [next_cons ha hp, Lexeme.first_quote, Lexeme.stringLiteral_bad hg he]
  simp only [pass_literal ha, Nat.add_assoc]

end Reader

/-! ## Writing a text as a literal -/

/-- A character as it is written in a literal: escaped if it is a quote or a backslash, and if it
is a newline that is not kept `raw`. -/
def Piece.spell (c : Char) (raw : Bool) : List Char :=
  if c = '"' ∨ c = '\\' then ['\\', c]
  else if c = '\n' ∧ !raw then ['\\', 'n']
  else [c]

/-- A literal for the text of the characters, each with whether it is kept raw. -/
def Piece.quoted (chars : List (Char × Bool)) : String :=
  String.ofList ('"' :: (chars.flatMap fun (c, raw) => spell c raw) ++ ['"'])

namespace Piece

theorem exists_spell (c : Char) (raw : Bool) :
    ∃ piece : Piece, piece.chars = spell c raw ∧ piece.value? = some c := by
  unfold spell
  split_ifs with hquote hnewline
  · obtain rfl | rfl := hquote
    · exact ⟨pair '"', rfl, rfl⟩
    · exact ⟨pair '\\', rfl, rfl⟩
  · obtain ⟨rfl, -⟩ := hnewline
    exact ⟨pair 'n', rfl, rfl⟩
  · exact ⟨plain c (not_or.1 hquote), rfl, rfl⟩

/-- What is written stands for the text that it was written for. -/
theorem exists_text (chars : List (Char × Bool)) :
    ∃ body, text body = (chars.flatMap fun (c, raw) => spell c raw) ∧
      decoded? body = some (chars.map Prod.fst) := by
  induction chars with
  | nil => exact ⟨[], rfl, rfl⟩
  | cons entry chars ih =>
    obtain ⟨piece, ht, hv⟩ := exists_spell entry.1 entry.2
    obtain ⟨body, htext, hdecoded⟩ := ih
    refine ⟨piece :: body, ?_, ?_⟩
    · rw [text_cons, ht, htext, List.flatMap_cons]
    · rw [decoded?_cons, hv, hdecoded]
      rfl

end Piece

namespace Reader

open Piece

/-- A text that is written as a literal is read back, as one token. -/
theorem drain_quoted (file : String) (chars : List (Char × Bool)) :
    let source := quoted chars
    let stop := source.utf8ByteSize
    (ofSource source file).drain.1 =
      [.token ⟨.string, String.ofList (chars.map Prod.fst), .wrap 0 stop⟩,
        .token (.endAt (.wrap stop stop))] := by
  intro source stop
  obtain ⟨body, htext, hdecoded⟩ := exists_text chars
  have ha : (ofSource source file).ahead = '"' :: (text body ++ '"' :: []) := by
    simp [ofSource, source, quoted, htext]
  have hstop : Text.size ('"' :: text body ++ ['"']) = stop := by
    rw [show stop = Text.size source.toList from (Text.size_toList source).symm]
    simp [source, quoted, htext]
  have hliteral := next_decoded rfl ha hdecoded
  simp only [hstop, show (ofSource source file).offset = 0 from rfl, Nat.zero_add] at hliteral
  rw [drain_eq, drainOnto_next Bool.false_ne_true hliteral, if_neg (by simp [ofSource]),
    drainOnto_next Bool.false_ne_true (next_nil rfl), if_pos (.inr rfl)]
  rfl

/-- What a reader yields at a double quote.  Unless a quote follows that no backslash takes, the
literal is unterminated and reaches to the end of the source.  Otherwise the reader goes on behind
the first such quote: with a token for what the body stands for, or with an error for the first pair
that stands for nothing.  So any text can be written as a literal. -/
theorem next_literal :
    (∀ (reader : Reader) (cs : List Char), reader.isPlaced → reader.ahead = '"' :: cs →
      ((∀ body rest, cs ≠ text body ++ '"' :: rest) →
        let stop := reader.offset + Text.size reader.ahead
        reader.next =
          (.error { cause := .unterminatedString, span := .wrap reader.offset stop,
                    file := some reader.file },
            { reader with ahead := [], offset := stop })) ∧
      ∀ body rest, cs = text body ++ '"' :: rest →
        let stop := reader.offset + Text.size ('"' :: text body ++ ['"'])
        reader.next.2 = { reader with ahead := rest, offset := stop } ∧
        match decoded? body with
        | some value =>
          reader.next.1 = .token ⟨.string, String.ofList value, .wrap reader.offset stop⟩
        | none =>
          ∃ good escape more, body = good ++ pair escape :: more ∧ (decoded? good).isSome ∧
            unescape? escape = none ∧
            let start := reader.offset + 1 + Text.size (text good)
            reader.next.1 =
              .error { cause := .invalidEscape escape,
                       span := .wrap start (start + 1 + escape.utf8Size),
                       file := some reader.file }) ∧
    ∀ (file : String) (chars : List (Char × Bool)),
      let source := quoted chars
      let stop := source.utf8ByteSize
      (ofSource source file).drain.1 =
        [.token ⟨.string, String.ofList (chars.map Prod.fst), .wrap 0 stop⟩,
          .token (.endAt (.wrap stop stop))] := by
  refine ⟨fun reader cs hp ha => ⟨fun h => next_unclosed hp ha h, ?_⟩, drain_quoted⟩
  rintro body rest rfl
  intro stop
  cases hd : decoded? body with
  | some value =>
    rw [next_decoded hp ha hd]
    exact ⟨rfl, rfl⟩
  | none =>
    obtain ⟨good, escape, more, value, rfl, hg, he⟩ := exists_first_bad hd
    rw [next_bad hp ha hg he]
    exact ⟨rfl, good, escape, more, rfl, by simp [hg], he, rfl⟩

theorem next_literal_pairs :
    let body : List Piece := [.plain 'é' (by decide), .pair 'n', .pair '"']
    let closed : Reader :=
      { file := "a.sm", ahead := '"' :: (text body ++ '"' :: [';']), offset := 2 }
    let cut : Reader := { file := "a.sm", ahead := '"' :: ['\\', '"'], offset := 2 }
    closed.isPlaced ∧ cut.isPlaced ∧
      closed.next =
        (.token ⟨.string, "é\n\"", ⟨2, 10⟩⟩, { closed with ahead := [';'], offset := 10 }) ∧
      (∀ body rest, ['\\', '"'] ≠ text body ++ '"' :: rest) ∧
      cut.next =
        (.error { cause := .unterminatedString, span := ⟨2, 5⟩, file := some "a.sm" },
          { cut with ahead := [], offset := 5 }) := by
  intro body closed cut
  have hcut (body : List Piece) (rest : List Char) : ['\\', '"'] ≠ text body ++ '"' :: rest := by
    intro h
    have hn := Lexeme.bodyLength?_text 0 body rest
    rw [← h] at hn
    cases hn
  obtain ⟨hafter, htoken⟩ := (next_literal.1 closed _ rfl rfl).2 body [';'] rfl
  exact ⟨rfl, rfl, Prod.ext htoken hafter, hcut, (next_literal.1 cut _ rfl rfl).1 hcut⟩

end Reader

end Smaug
