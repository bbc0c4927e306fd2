import Mathlib
import Smaug.Proofs.Token.Spaced
import Smaug.Proofs.Tree.Renumbered

/-! # Texts joined by a line break

A text that is read without an error keeps its tokens where another follows on a new line, and the
other has its own tokens there too.  Only their places differ.
-/

namespace Smaug

namespace Lexed

variable {offset : Nat} {cs more : List Char} {tokens rest : List Token}

/-- A text has the same tokens wherever it starts. -/
theorem moved (h : Lexed offset cs tokens) (offset' : Nat) :
    ∃ tokens', Lexed offset' cs tokens' ∧ tokens'.map Token.bare = tokens.map Token.bare := by
  induction h generalizing offset' with
  | nil => exact ⟨_, .nil, rfl⟩
  | trivia hs _ ih =>
    obtain ⟨tokens', hl, hb⟩ := ih _
    exact ⟨tokens', .trivia hs hl, hb⟩
  | token hs _ ih =>
    obtain ⟨tokens', hl, hb⟩ := ih _
    exact ⟨_, .token hs hl, congrArg (_ :: ·) hb⟩

/-- The end of the text is the last token, and no other is. -/
theorem closed (h : Lexed offset cs tokens) :
    ∃ read stop, tokens = read ++ [stop] ∧ stop.kind = .eof ∧ ∀ token ∈ read, token.kind ≠ .eof := by
  induction h with
  | nil => exact ⟨[], _, rfl, rfl, List.forall_mem_nil _⟩
  | trivia _ _ ih => exact ih
  | token hs _ ih =>
    obtain ⟨read, stop, rfl, hstop, hread⟩ := ih
    exact ⟨_ :: read, stop, rfl, hstop,
      List.forall_mem_cons.2 ⟨Lexeme.first_ne_eof hs, hread⟩⟩

theorem ne_nil (h : Lexed offset cs tokens) : tokens ≠ [] := by
  obtain ⟨read, stop, rfl, -⟩ := h.closed
  simp

/-- A lexeme of a text that is no blanks is the same where the line ends with the text. -/
theorem first_line {c : Char} (hc : Text.isBlank c = false) (hs : (Lexeme.first c cs).sort.isSound)
    (more : List Char) : Lexeme.first c (cs ++ '\n' :: more) = Lexeme.first c cs :=
  Lexeme.first_append_blank (by decide) hc hs (fun _ => rfl) more

/-- Behind the first lexeme and all that comes after it, a new line starts. -/
theorem joined_cons {c : Char} {lexed : List Token}
    (ih : Lexed (offset + Text.size ((c :: cs).take (Lexeme.first c cs).length))
      ((c :: cs).drop (Lexeme.first c cs).length ++ '\n' :: more) lexed) :
    Lexed (offset + Text.size ((c :: cs ++ '\n' :: more).take (Lexeme.first c cs).length))
      ((c :: cs ++ '\n' :: more).drop (Lexeme.first c cs).length) lexed := by
  have hle := Lexeme.first_length_le c cs
  rwa [List.take_append_of_le_length hle, List.drop_append_of_le_length hle]

/-- The tokens of a text come before those of another on the next line. -/
theorem joined (h : Lexed offset cs tokens) (hm : Lexed (offset + Text.size cs + 1) more rest) :
    Lexed offset (cs ++ '\n' :: more) (tokens.dropLast ++ rest) := by
  induction h with
  | nil =>
    have hblank : ∀ w ∈ ['\n'], Text.isBlank w := List.forall_mem_singleton.2 (by decide)
    have hl : Lexed _ (['\n'] ++ more) rest := blanks hblank hm
    exact hl
  | @trivia c cs kind offset tokens hs hr ih =>
    rw [Text.size_take_drop] at ih
    have ih := ih hm
    cases hc : Text.isBlank c with
    | true =>
      have hblank : ∀ w ∈ (c :: cs).take (Lexeme.first c cs).length, Text.isBlank w := by
        rw [Lexeme.take_first_blank hc]
        exact List.forall_mem_cons.2 ⟨hc, fun w hw => List.mem_takeWhile_imp hw⟩
      have hl := ih.blanks hblank
      rwa [← List.append_assoc, List.take_append_drop] at hl
    | false =>
      have hsound : (Lexeme.first c cs).sort.isSound := by rw [hs]; rfl
      have hfirst := first_line hc hsound more
      have hl := joined_cons ih
      rw [← hfirst] at hl
      exact .trivia (hfirst ▸ hs) hl
  | @token c cs kind value offset tokens hs hr ih =>
    rw [Text.size_take_drop] at ih
    have hsound : (Lexeme.first c cs).sort.isSound := by rw [hs]; rfl
    have hc : Text.isBlank c = false := by
      by_contra hc
      rw [Lexeme.first_blank (by simpa using hc)] at hs
      cases hs
    have hfirst := first_line hc hsound more
    have hl := joined_cons (ih hm)
    rw [← hfirst] at hl
    have ht := Lexed.token (hfirst ▸ hs) hl
    have hle := Lexeme.first_length_le c cs
    rwa [hfirst, ← List.cons_append, List.take_append_of_le_length hle,
      ← List.cons_append, ← List.dropLast_cons_of_ne_nil hr.ne_nil] at ht

end Lexed

/-- The tokens of two lines, each of which may be any text, are those of the first line and then
those of the second. -/
theorem Tokens.ofSource_joined {a b file file' : String} {tokens tokens' : Tokens}
    (ha : ofSource a file {} = .ok tokens) (hb : ofSource b file' {} = .ok tokens')
    (hs : (a ++ "\n" ++ b).utf8ByteSize ≤ Span.maxOffset) (name : String) :
    ∃ joined, ofSource (a ++ "\n" ++ b) name {} = .ok joined ∧
      joined.tokens.map Token.bare =
        (tokens.tokens.map Token.bare).dropLast ++ tokens'.tokens.map Token.bare := by
  have htext : (a ++ "\n" ++ b).toList = a.toList ++ '\n' :: b.toList := by simp
  obtain ⟨moved, hl, hm⟩ := (ofSource_lexed hb).moved (0 + Text.size a.toList + 1)
  have hj := (ofSource_lexed ha).joined hl
  rw [← htext] at hj
  obtain ⟨trivia, h⟩ := ofSource_of_lexed hj hs name
  exact ⟨_, h, by rw [List.map_append, List.map_dropLast, hm]⟩

end Smaug
