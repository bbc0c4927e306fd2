import Mathlib
import Smaug.Proofs.Token.Blank

/-! # Token texts by themselves

A source that is read without an error may be taken apart into the texts of its tokens and these put
together again with other blanks: it is read to the same tokens.
-/

namespace Smaug

/-- Texts one behind the other, with blanks between them. -/
inductive Spaced : List String → String → Prop
  | nil : Spaced [] ""
  | single (text : String) : Spaced [text] text
  | cons {text gap next rest : String} {texts : List String} (hne : gap ≠ "")
      (hgap : ∀ w ∈ gap.toList, Text.isBlank w) (hrest : Spaced (next :: texts) rest) :
      Spaced (text :: next :: texts) (text ++ gap ++ rest)

def Token.content (token : Token) : Kind × String := (token.kind, token.value)

/-- A text is nothing but the one token. -/
def Token.Spells (token : Token) (text : List Char) : Prop :=
  ∃ c cs, text = c :: cs ∧
    Lexeme.first c cs = ⟨text.length, .token token.kind token.value⟩

/-- A text that is one token is the same token before a blank. -/
theorem Token.Spells.append {token : Token} {text more : List Char} (h : token.Spells text)
    (hmore : ∀ w ∈ more.head?, Text.isBlank w) :
    ∃ c cs, text = c :: cs ∧ Lexeme.first c (cs ++ more) =
      ⟨text.length, .token token.kind token.value⟩ := by
  obtain ⟨c, cs, rfl, hf⟩ := h
  refine ⟨c, cs, rfl, ?_⟩
  cases more with
  | nil => rw [List.append_nil, hf]
  | cons w more =>
    have hw : Text.isBlank w := hmore w rfl
    have hc : Text.isBlank c = false := by
      rw [← Bool.not_eq_true]
      intro hc
      rw [Lexeme.first_blank hc] at hf
      cases congrArg Lexeme.sort hf
    rw [Lexeme.first_append_blank hw hc (by rw [hf]; rfl) (fun h => ?_), hf]
    rw [hf] at h
    cases h

namespace Lexed

variable {offset : Nat} {cs : List Char} {tokens : List Token}

theorem spells_first {c : Char} {kind : Token.Kind} {value : String} {span : Span}
    (h : (Lexeme.first c cs).sort = .token kind value) :
    Token.Spells ⟨kind, value, span⟩ ((c :: cs).take (Lexeme.first c cs).length) := by
  have hs : (Lexeme.first c cs).sort.isSound := by
    rw [h]
    rfl
  obtain ⟨more, -, hf, htake, hdrop, -⟩ := part hs (List.nil_append _).symm
  have hlength : (Lexeme.first c cs).length = (c :: more).length := by
    have hle := Lexeme.first_length_le c more
    have hge := List.drop_eq_nil_iff.1 hdrop
    rw [hf] at hle
    exact Nat.le_antisymm hle hge
  rw [← htake, hlength, List.take_length]
  refine ⟨c, more, rfl, ?_⟩
  rw [hf, ← hlength, ← h]

/-- The text of every token but the last, by itself, is that token. -/
theorem spells {source : String} (h : Lexed offset cs tokens) (front : List Char)
    (hsource : source.toList = front ++ cs) (hfront : Text.size front = offset) :
    ∃ (read : List Token) (texts : List String),
      tokens = read ++ [.endAt (.emptyAt (offset + Text.size cs))] ∧
      (∀ token ∈ read, token.kind ≠ .eof) ∧
      read.map (fun token => token.span.text? source) = texts.map some ∧
      List.Forall₂ (fun token text => token.Spells text.toList) read texts := by
  induction h generalizing front with
  | nil => exact ⟨[], [], rfl, by simp, rfl, .nil⟩
  | @trivia c cs _ offset tokens hs _ ih =>
    have hsplit := List.take_append_drop (Lexeme.first c cs).length (c :: cs)
    obtain ⟨read, texts, ht, h⟩ := ih (front ++ (c :: cs).take (Lexeme.first c cs).length)
      (by rw [List.append_assoc, hsplit, hsource]) (by rw [Text.size_append, hfront])
    rw [Text.size_take_drop] at ht
    exact ⟨read, texts, ht, h⟩
  | @token c cs kind value offset tokens hs _ ih =>
    have hsplit := List.take_append_drop (Lexeme.first c cs).length (c :: cs)
    obtain ⟨read, texts, ht, hk, htexts, hspells⟩ :=
      ih (front ++ (c :: cs).take (Lexeme.first c cs).length)
        (by rw [List.append_assoc, hsplit, hsource]) (by rw [Text.size_append, hfront])
    rw [Text.size_take_drop] at ht
    have htext := Span.text?_append
      (show source.toList = front ++ ((c :: cs).take (Lexeme.first c cs).length ++
        (c :: cs).drop (Lexeme.first c cs).length) by rw [hsplit, hsource])
    rw [hfront] at htext
    refine ⟨_ :: read, String.ofList ((c :: cs).take (Lexeme.first c cs).length) :: texts,
      by rw [ht, List.cons_append], List.forall_mem_cons.2 ⟨Lexeme.first_ne_eof hs, hk⟩, ?_,
      .cons ?_ hspells⟩
    · rw [List.map_cons, htext, htexts, List.map_cons]
    · rw [String.toList_ofList]
      exact spells_first hs

/-- Blanks at the start of a text can be left out. -/
theorem dropBlanks (h : Lexed offset cs tokens) :
    Lexed (offset + Text.size (cs.takeWhile Text.isBlank)) (cs.dropWhile Text.isBlank) tokens := by
  cases cs with
  | nil => exact h
  | cons c cs =>
    cases hc : Text.isBlank c with
    | false => simpa [hc] using h
    | true =>
      rw [List.takeWhile_cons_of_pos hc, List.dropWhile_cons_of_pos hc]
      cases h with
      | trivia _ hr => rwa [Lexeme.take_first_blank hc, Lexeme.drop_first_blank hc] at hr
      | token hs =>
        rw [Lexeme.first_blank hc] at hs
        cases hs

/-- Blanks can be put in front of a text. -/
theorem blanks {ws : List Char} (hw : ∀ w ∈ ws, Text.isBlank w)
    (h : Lexed (offset + Text.size ws) cs tokens) : Lexed offset (ws ++ cs) tokens := by
  induction ws generalizing offset with
  | nil => exact h
  | cons w ws ih =>
    obtain ⟨hb, hw⟩ := List.forall_mem_cons.1 hw
    rw [Text.size_cons, ← Nat.add_assoc] at h
    refine .trivia (by rw [Lexeme.first_blank hb]) ?_
    rw [Lexeme.take_first_blank hb, Lexeme.drop_first_blank hb, Text.size_cons, ← Nat.add_assoc]
    exact (ih hw h).dropBlanks

/-- A text that is one token and what is read behind it. -/
theorem cons_spells {token : Token} {text : List Char} (h : token.Spells text) (cs : List Char)
    (hcs : ∀ w ∈ cs.head?, Text.isBlank w)
    (hr : Lexed (offset + Text.size text) cs tokens) :
    ∃ again, again.content = token.content ∧ Lexed offset (text ++ cs) (again :: tokens) := by
  obtain ⟨c, ds, rfl, hf⟩ := h.append hcs
  have htake : (c :: (ds ++ cs)).take (c :: ds).length = c :: ds := by
    rw [← List.cons_append, List.take_left]
  have hdrop : (c :: (ds ++ cs)).drop (c :: ds).length = cs := by
    rw [← List.cons_append, List.drop_left]
  have hl : Lexed (offset + Text.size ((c :: (ds ++ cs)).take (Lexeme.first c (ds ++ cs)).length))
      ((c :: (ds ++ cs)).drop (Lexeme.first c (ds ++ cs)).length) tokens := by
    rwa [hf, htake, hdrop]
  have hs : (Lexeme.first c (ds ++ cs)).sort = .token token.kind token.value := by rw [hf]
  refine ⟨_, ?_, .token hs hl⟩
  rfl

/-- Texts that are one token each, with blanks between them, are read to these tokens. -/
theorem spaced {read : List Token} {texts : List String} {text : String}
    (h : List.Forall₂ (fun token text => token.Spells text.toList) read texts)
    (hs : Spaced texts text) (offset : Nat) :
    ∃ again, again.map Token.content = read.map Token.content ∧
      Lexed offset text.toList (again ++ [.endAt (.emptyAt (offset + text.utf8ByteSize))]) := by
  induction hs generalizing read offset with
  | nil =>
    cases h
    exact ⟨[], rfl, .nil⟩
  | single text =>
    cases h with
    | cons ht hn =>
      cases hn
      obtain ⟨again, hc, hl⟩ := cons_spells ht [] (by simp) .nil
      rw [List.append_nil, Text.size_toList] at hl
      exact ⟨[again], by rw [List.map_singleton, hc, List.map_singleton], hl⟩
  | @cons text gap next rest texts hne hgap _ ih =>
    cases h with
    | cons ht hts =>
      obtain ⟨read, hc, hl⟩ := ih hts (offset + Text.size text.toList + Text.size gap.toList)
      have hhead : ∀ w ∈ (gap.toList ++ rest.toList).head?, Text.isBlank w := by
        intro w hw
        rw [List.head?_append_of_ne_nil _ (by simpa using hne)] at hw
        exact hgap w (List.mem_of_mem_head? hw)
      obtain ⟨again, hc', hl'⟩ := cons_spells ht _ hhead (hl.blanks hgap)
      refine ⟨again :: read, by rw [List.map_cons, hc, hc', List.map_cons], ?_⟩
      rw [String.toList_append, String.toList_append, List.append_assoc]
      simpa [Text.size_toList, Nat.add_assoc] using hl'

end Lexed

/-- The texts of the tokens of a source, put together with any blanks between them, are read to
tokens of the same kinds and values. -/
theorem Tokens.ofSource_spaced {source file : String} {tokens : Tokens}
    (h : ofSource source file {} = .ok tokens) :
    ∃ read texts, tokens.tokens = read ++ [.endAt (.emptyAt source.utf8ByteSize)] ∧
      (∀ token ∈ read, token.kind ≠ .eof) ∧
      read.map (fun token => token.span.text? source) = texts.map some ∧
      ∀ text file, Spaced texts text → text.utf8ByteSize ≤ Options.byteLimit {} →
        ∃ again trivia,
          ofSource text file {} =
            .ok ⟨again ++ [.endAt (.emptyAt text.utf8ByteSize)], trivia⟩ ∧
          again.map Token.content = read.map Token.content := by
  obtain ⟨read, texts, ht, hk, htexts, hspells⟩ :=
    (ofSource_lexed h).spells [] rfl rfl
  rw [Nat.zero_add, Text.size_toList] at ht
  refine ⟨read, texts, ht, hk, htexts, fun text file hs hsize => ?_⟩
  obtain ⟨again, hcontent, hl⟩ := Lexed.spaced hspells hs 0
  rw [Nat.zero_add] at hl
  have hlimit : Options.byteLimit {} = Span.maxOffset := Nat.min_self _
  obtain ⟨trivia, htrivia⟩ := ofSource_of_lexed hl (hlimit ▸ hsize) file
  exact ⟨again, trivia, htrivia, hcontent⟩

theorem Tokens.ofSource_spaced_sum :
    let source := "a+\"\\n\""
    let tokens : Tokens :=
      { tokens := [⟨.identifier, "a", ⟨0, 1⟩⟩, ⟨.plus, "+", ⟨1, 2⟩⟩, ⟨.string, "\n", ⟨2, 6⟩⟩,
          .endAt (.emptyAt 6)]
        trivia := #[] }
    ofSource source "sum.sm" {} = .ok tokens ∧
      ∃ read texts, tokens.tokens = read ++ [.endAt (.emptyAt source.utf8ByteSize)] ∧
        read.map (fun token => token.span.text? source) = texts.map some ∧
        ∀ text file, Spaced texts text → text.utf8ByteSize ≤ Options.byteLimit {} →
          ∃ again trivia,
            ofSource text file {} =
              .ok ⟨again ++ [.endAt (.emptyAt text.utf8ByteSize)], trivia⟩ ∧
            again.map Token.content = read.map Token.content := by
  intro source tokens
  have h : ofSource source "sum.sm" {} = .ok tokens := by decide +kernel
  obtain ⟨read, texts, ht, -, htexts, hspaced⟩ := ofSource_spaced h
  exact ⟨h, read, texts, ht, htexts, hspaced⟩

end Smaug
