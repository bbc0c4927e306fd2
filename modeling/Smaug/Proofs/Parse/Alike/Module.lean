import Smaug.Proofs.Parse.Alike.Rules
import Smaug.Proofs.Token.File

/-! # Modules that parse alike

A parse decides where to go on after a failure by the kinds of tokens alone.  So modules whose
tokens no rule tells apart come to the same tree, but for texts and places, and fail in as many
places with errors that are alike.
-/

namespace Smaug

namespace Parse

namespace State.Alike

variable {s s' : State}

theorem skipStatement (n : Nat) (h : s.Alike s') :
    (skipStatement n s).Alike (skipStatement n s') := by
  induction n generalizing s s' with
  | zero => exact h
  | succ n ih =>
    unfold Parse.skipStatement
    rw [h.kind]
    split
    iterate 3 exact h
    · exact h.advance
    · exact ih h.advance

theorem recover {m m' : Mark} (hm : m.Alike m') (h : s.Alike s') :
    (recover m s).Alike (recover m' s') := by
  have hd := h.discard hm
  unfold Parse.recover
  simp only [hd.length_ahead, hm.ahead.length_eq, hd.hasTokens, hd.kind, hd.remaining,
    hd.advance.remaining]
  split
  · split
    · exact hd.advance
    · exact hd.advance.skipStatement _
  · exact hd.skipStatement _

theorem ended {tokens tokens' : List Token} (h : List.Forall₂ Token.Alike tokens tokens') :
    List.Forall₂ Token.Alike (ended tokens) (ended tokens') := by
  have hr := List.rel_reverse h
  unfold State.ended
  rw [List.getLast?_eq_head?_reverse, List.getLast?_eq_head?_reverse]
  generalize tokens.reverse = backward, tokens'.reverse = backward' at hr
  cases hr with
  | nil => exact .cons (.endAt _ _) .nil
  | cons ht _ =>
    dsimp only [List.head?_cons]
    rw [ht.kind]
    split
    · exact h
    · exact List.rel_append h (.cons (.endAt _ _) .nil)

theorem start {tokens tokens' : List Token} (h : List.Forall₂ Token.Alike tokens tokens') :
    (start tokens).Alike (start tokens') := by
  have he := ended h
  unfold State.start
  generalize State.ended tokens = all, State.ended tokens' = all' at he
  cases he with
  | nil => exact ⟨.endAt _ _, .nil, rfl, rfl⟩
  | cons ht hts => exact ⟨ht, hts, rfl, rfl⟩

end State.Alike

structure Progress.Alike (p p' : Progress) : Prop where
  state : Option.Rel State.Alike p.state p'.state
  statements : p.statements = p'.statements
  errors : List.Forall₂ Error.Alike p.errors.toList p'.errors.toList

theorem topLevel_alike {setup setup' : Setup} (hsetup : setup.Alike setup') (strict : Bool)
    (turns : Nat) {s s' : State} (hs : s.Alike s') (ids : Array NodeId)
    {errors errors' : Array Error}
    (he : List.Forall₂ Error.Alike errors.toList errors'.toList) :
    (topLevel setup strict turns s ids errors).Alike
      (topLevel setup' strict turns s' ids errors') := by
  induction turns generalizing s s' ids errors errors' with
  | zero => exact ⟨.some hs, rfl, he⟩
  | succ turns ih =>
    unfold topLevel
    rw [hs.hasTokens]
    by_cases ht : s'.hasTokens
    · rw [if_pos ht, if_pos ht]
      have ho := alike (Rule.form .statement).parse (Rule.form .statement).parse hsetup hs
      generalize (Rule.form .statement).parse setup s = outcome,
        (Rule.form .statement).parse setup' s' = outcome' at ho
      cases ho with
      | done hi hs =>
        subst hi
        exact ih hs _ he
      | stopped hw hs' =>
        have hdiscard := hs'.discard hs.mark
        cases hw with
        | @error e e' hee =>
          have he : List.Forall₂ Error.Alike (errors.push e).toList (errors'.push e').toList := by
            rw [Array.toList_push, Array.toList_push]
            exact List.rel_append he (.cons hee .nil)
          simp only [hee.classify]
          split
          · exact ⟨.none, rfl, he⟩
          · split
            · exact ⟨.some hdiscard, rfl, he⟩
            · exact ih (hs'.recover hs.mark) ids he
        | missingNode => exact ⟨.some hdiscard, rfl, he⟩
        | exhausted => exact ⟨.some hdiscard, rfl, he⟩
    · rw [if_neg ht, if_neg ht]
      exact ⟨.some hs, rfl, he⟩

theorem moduleBody_alike {setup setup' : Setup} (hsetup : setup.Alike setup') (strict : Bool)
    {s s' : State} (hs : s.Alike s') {errors errors' : Array Error}
    (he : List.Forall₂ Error.Alike errors.toList errors'.toList) :
    (moduleBody setup strict s errors).Alike (moduleBody setup' strict s' errors') := by
  unfold moduleBody
  rw [hs.remaining]
  exact topLevel_alike hsetup strict _ hs _ he

end Parse

namespace Parsed

open Parse

/-- Two trees with the same skeletons, and errors that are alike. -/
structure Alike (parsed parsed' : Parsed) : Prop where
  nodes : NodesAlike parsed.tree.nodes parsed'.tree.nodes
  header : parsed.tree.header = parsed'.tree.header
  statements : parsed.tree.statements = parsed'.tree.statements
  errors : List.Forall₂ Error.Alike parsed.errors parsed'.errors

theorem ofProgress_alike {file file' : String} {trivia trivia' : Array Trivia}
    (header : Option NodeId) {p p' : Progress} (h : p.Alike p') :
    (ofProgress file trivia header p).Alike (ofProgress file' trivia' header p') := by
  obtain ⟨state, statements, errors⟩ := p
  obtain ⟨state', statements', errors'⟩ := p'
  obtain ⟨hs, hids, he⟩ := h
  cases hs with
  | none => exact ⟨rfl, rfl, rfl, he⟩
  | some hs => exact ⟨hs.nodes, rfl, congrArg Array.toList hids, he⟩

/-- Tokens that no rule tells apart parse alike, whatever the file is called. -/
theorem ofTokens_alike {tokens tokens' : Tokens} (file file' : String) (options : Options)
    (h : List.Forall₂ Token.Alike tokens.tokens tokens'.tokens) :
    (ofTokens tokens file options).Alike (ofTokens tokens' file' options) := by
  have hsetup : (Setup.standard file options).Alike (.standard file' options) := ⟨rfl, rfl⟩
  have hs := State.Alike.start h
  have ho := alike Parse.header Parse.header hsetup hs
  unfold ofTokens
  dsimp only
  generalize Parse.header (.standard file options) (.start tokens.tokens) = outcome,
    Parse.header (.standard file' options) (.start tokens'.tokens) = outcome' at ho
  cases ho with
  | done hh hs =>
    subst hh
    exact ofProgress_alike _ (moduleBody_alike hsetup _ hs .nil)
  | stopped hw hs' =>
    cases hw with
    | error he =>
      have herrors := List.Forall₂.cons he .nil
      dsimp only
      split
      · exact ⟨rfl, rfl, rfl, herrors⟩
      · exact ofProgress_alike none (moduleBody_alike hsetup false (hs'.recover hs.mark) herrors)
    | missingNode => exact ⟨rfl, rfl, rfl, .nil⟩
    | exhausted => exact ⟨rfl, rfl, rfl, .nil⟩

/-- A source parses alike whatever its file is called. -/
theorem ofSource_alike (source file file' : String) (options : Options) :
    (ofSource source file options).Alike (ofSource source file' options) := by
  unfold ofSource
  rw [Tokens.ofSource_inFile source file file' options]
  cases Tokens.ofSource source file options with
  | ok tokens =>
    exact ofTokens_alike file file' options (List.forall₂_same.2 fun token _ => .refl token)
  | error errors =>
    have he : List.Forall₂ Error.Alike errors errors := List.forall₂_same.2 fun _ _ => ⟨rfl, rfl⟩
    exact ⟨rfl, rfl, rfl, List.forall₂_map_right_iff.2 (he.imp fun _ _ h => ⟨h.cause, h.expected⟩)⟩

theorem Alike.errors_eq_nil {parsed parsed' : Parsed} (h : parsed.Alike parsed') :
    parsed.errors = [] ↔ parsed'.errors = [] := by
  rw [← List.length_eq_zero_iff, h.errors.length_eq, List.length_eq_zero_iff]

end Parsed
end Smaug
