import Mathlib
import Smaug.Proofs.Parse.Lossless
import Smaug.Proofs.Text.Place
import Smaug.Proofs.Token.Blank
import Smaug.Proofs.Token.Cut
import Smaug.Report.Caret

/-! # Carets out of reach

A report is drawn unless its caret is further to the right than a text can be made wide.  Blanks at
the start of a line that are no indentation bring an error there.
-/

namespace Smaug

/-- A caret can be drawn unless it is out of reach. -/
theorem Report.caret?_isSome (error : Error) (source file : String) :
    (caret? error source file).isSome ↔
      arrowWidth (Text.placeOf source error.span.start) ≤ maxWidth := by
  simp only [caret?, padLeft?, Option.isSome_map]
  split <;> simp_all

/-- A bracket behind vertical tabs, which are blanks but no indentation. -/
def indented (n : Nat) : List Char := List.replicate n '\x0b' ++ [')']

theorem size_replicate_tab (n : Nat) : Text.size (List.replicate n '\x0b') = n := by
  induction n with
  | zero => rfl
  | succ n ih =>
    rw [List.replicate_succ, Text.size_cons, ih, Nat.add_comm]
    rfl

theorem size_indented (n : Nat) : Text.size (indented n) = n + 1 := by
  rw [indented, Text.size_append, size_replicate_tab]
  rfl

theorem lexed_indented (n : Nat) :
    Lexed 0 (indented (n + 1)) [⟨.closeParen, ")", ⟨n + 1, n + 2⟩⟩, .endAt (.emptyAt (n + 2))] := by
  have hblank : Text.isBlank '\x0b' := by decide
  have hall : ∀ c ∈ List.replicate n '\x0b', Text.isBlank c := fun c hc => by
    rwa [List.eq_of_mem_replicate hc]
  have hrun : (indented n).takeWhile Text.isBlank = List.replicate n '\x0b' := by
    rw [indented, List.takeWhile_append_of_pos hall, List.takeWhile_cons_of_neg (by decide),
      List.append_nil]
  have hrest : (indented n).dropWhile Text.isBlank = [')'] := by
    rw [indented, List.dropWhile_append_of_pos hall]
    rfl
  have hcons : indented (n + 1) = '\x0b' :: indented n := by
    rw [indented, List.replicate_succ, List.cons_append, indented]
  have htail : Lexed (0 + (n + 1)) [')']
      [⟨.closeParen, ")", ⟨n + 1, n + 2⟩⟩, .endAt (.emptyAt (n + 2))] := by
    rw [Nat.zero_add]
    have h : (Lexeme.first ')' []).sort = .token .closeParen ")" := rfl
    exact .token h .nil
  rw [hcons]
  refine .trivia (congrArg Lexeme.sort (Lexeme.first_blank hblank _)) ?_
  rw [Lexeme.take_first_blank hblank, Lexeme.drop_first_blank hblank, hrun, hrest,
    ← List.replicate_succ, size_replicate_tab]
  exact htail

/-- The error of such a source cannot be drawn from a certain width on. -/
theorem Parsed.caret?_indented {n : Nat} (hn : n + 2 ≤ Span.maxOffset) (file : String) :
    let source := String.ofList (indented (n + 1))
    ∃ error ∈ (ofSource source file {}).errors,
      ((Report.caret? error source file).isSome ↔ n + 2 ≤ Report.maxWidth) := by
  intro source
  have hlist : source.toList = indented (n + 1) := String.toList_ofList
  have hsize : source.utf8ByteSize = n + 2 := by rw [← Text.size_toList, hlist, size_indented]
  obtain ⟨trivia, ht⟩ := Tokens.ofSource_of_lexed (hlist ▸ lexed_indented n) (hsize ▸ hn) file
  let error : Error :=
    { cause := .unexpectedToken ")" none
      span := ⟨n + 1, n + 2⟩
      expected := [.statement]
      file := some file }
  refine ⟨error, ?_, ?_⟩
  · rw [ofSource_eq_ofTokens ht]
    exact List.mem_singleton_self error
  · have hline : Text.placeOf source error.span.start = ⟨1, indented (n + 1), n + 1⟩ := by
      rw [Text.placeOf, hsize, hlist, Text.locate_of_line (by simp [indented])]
      simp [error]
    have hindent : Report.indentation (indented (n + 1)) = 0 := rfl
    rw [Report.caret?_isSome, hline, Report.arrowWidth, hindent]
    exact Iff.rfl

end Smaug
