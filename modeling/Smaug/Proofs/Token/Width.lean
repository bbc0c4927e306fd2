import Smaug.Proofs.Token.Boundary

/-! # How wide tokens are

No token is empty but the one that ends the input, and a reserved word has two letters or more.
-/

namespace Smaug

/-- How many bytes a token of a kind is wide at least. -/
def Token.Kind.width (kind : Token.Kind) : Nat :=
  if kind.isReserved then 2 else if kind = .eof then 0 else 1

class Token.Kind.Wide (kind : Token.Kind) (width : outParam Nat) : Prop where
  le : width ≤ kind.width

namespace Token.Kind

instance : Wide .string 1 := ⟨by decide⟩
instance : Wide .openParen 1 := ⟨by decide⟩
instance : Wide .closeParen 1 := ⟨by decide⟩
instance : Wide .openBracket 1 := ⟨by decide⟩
instance : Wide .closeBracket 1 := ⟨by decide⟩
instance : Wide .openCurly 1 := ⟨by decide⟩
instance : Wide .closeCurly 1 := ⟨by decide⟩
instance : Wide .comma 1 := ⟨by decide⟩
instance : Wide .colon 1 := ⟨by decide⟩
instance : Wide .dot 1 := ⟨by decide⟩
instance : Wide .ellipsis 1 := ⟨by decide⟩
instance : Wide .assignment 1 := ⟨by decide⟩
instance : Wide .importWord 2 := ⟨by decide⟩
instance : Wide .letWord 2 := ⟨by decide⟩
instance : Wide .structWord 2 := ⟨by decide⟩
instance : Wide .enumWord 2 := ⟨by decide⟩
instance : Wide .doWord 2 := ⟨by decide⟩
instance : Wide .yieldWord 2 := ⟨by decide⟩
instance : Wide .returnWord 2 := ⟨by decide⟩
instance : Wide .ifWord 2 := ⟨by decide⟩
instance : Wide .inWord 2 := ⟨by decide⟩
instance : Wide .eachWord 2 := ⟨by decide⟩
instance : Wide .matchWord 2 := ⟨by decide⟩
instance : Wide .caseWord 2 := ⟨by decide⟩

end Token.Kind

theorem Token.Kind.width_pos {kind : Token.Kind} (h : kind ≠ .eof) : 1 ≤ kind.width := by
  unfold width
  rw [if_neg h]
  split <;> decide

namespace Token.Kind

theorem ofWord_reserved {word : String} (h : (ofWord word).isReserved) :
    word = (ofWord word).describe := by
  unfold ofWord at h ⊢
  split
  · rename_i kind hf
    have hw := List.find?_some hf
    exact (beq_iff_eq.1 hw).symm
  · rename_i hf
    rw [hf] at h
    dsimp only at h
    split at h <;> exact absurd h (by decide)

theorem two_le_reserved : ∀ kind ∈ reserved, 2 ≤ Text.size kind.describe.toList := by decide

end Token.Kind

namespace Lexeme

/-- A reserved word is spelled as messages call it. -/
theorem first_reserved {c : Char} {cs : List Char} {kind : Token.Kind} {value : String}
    (h : (first c cs).sort = .token kind value) (hr : kind.isReserved) : value = kind.describe := by
  unfold first at h
  split at h
  · cases h
  split at h
  · cases h
  split at h
  · unfold blockComment at h
    split at h <;> cases h
  split at h
  · unfold stringLiteral at h
    split at h
    · cases h
    · split at h <;> cases h
      exact absurd hr (by decide)
  split at h
  · cases h
    exact Token.Kind.ofWord_reserved hr
  split at h
  · cases h
    exact absurd hr (by decide)
  · unfold mark at h
    split at h
    · rename_i spelling found hf
      cases h
      have hm : ∀ m ∈ marks, m.2.isReserved = false := by decide
      rw [hm _ (List.mem_of_find?_eq_some hf)] at hr
      cases hr
    · cases h

theorem width_le_size {c : Char} {cs : List Char} {kind : Token.Kind} {value : String}
    (h : (first c cs).sort = .token kind value) :
    kind.width ≤ Text.size ((c :: cs).take (first c cs).length) := by
  unfold Token.Kind.width
  split
  · rename_i hr
    have hs : kind ≠ .string := by
      rintro rfl
      cases hr
    have hv := (first_reserved h hr).symm.trans (first_value h hs)
    have h2 := Token.Kind.two_le_reserved kind (by simpa [Token.Kind.isReserved] using hr)
    rwa [hv, String.toList_ofList] at h2
  · have := size_pos c cs
    split <;> omega

end Lexeme

namespace Tokens

variable {source file : String} {options : Options} {tokens : Tokens}

/-- A token is as wide as its kind says. -/
theorem ofSource_wide (h : ofSource source file options = .ok tokens) {token : Token}
    (ht : token ∈ tokens.tokens) (hk : token.kind ≠ .eof) :
    token.span.start + token.kind.width ≤ token.span.stop := by
  obtain ⟨region, hi⟩ := (ofSource_items h).1 token ht hk
  obtain ⟨before, c, after, -, hitem⟩ := regions_lexeme (List.nil_append _).symm _ hi
  cases hs : (Lexeme.first c after).sort with
  | token kind value =>
    simp only [hs] at hitem
    cases hitem
    exact Nat.add_le_add_left (Lexeme.width_le_size hs) _
  | trivia | malformed | badEscape =>
    simp only [hs] at hitem
    cases hitem

end Tokens
end Smaug
