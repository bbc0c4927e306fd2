import Smaug.Proofs.Parse.Reached
import Smaug.Proofs.Parse.Script
import Smaug.Proofs.Token.File

/-! # The stage that refuses a source

A source is measured, read to tokens and parsed, and what one stage refuses does not come to the
next.  So all errors are of the same stage; a limit that is exceeded ends it, and where there is no
tree for the parse to go on from, there is none at all.
-/

namespace Smaug

/-! ## Errors of the tokens -/

/-- The errors of a text that lexemes can name have to do with its characters. -/
theorem Lexeme.classify_of_malformed {c : Char} {cs : List Char} {cause : Cause}
    (h : (first c cs).sort = .malformed cause) : cause.classify = .lexical := by
  unfold first at h
  split at h
  · cases h
  split at h
  · cases h
  split at h
  · unfold blockComment at h
    split at h <;> cases h
    rfl
  split at h
  · unfold stringLiteral at h
    split at h
    · cases h
      rfl
    · split at h <;> cases h
  split at h
  · cases h
  split at h
  · cases h
  · unfold mark at h
    split at h <;> cases h
    rfl

namespace Reader

theorem classify_of_next {reader after : Reader} {error : Error}
    (h : reader.next = (.error error, after)) : error.classify = .lexical := by
  fun_induction next reader with
  | case1 | case3 | case6 => cases h
  | case2 _ _ _ _ _ _ _ _ _ _ ih => exact ih h
  | case4 reader c cs ha hp lexeme passed span cause hk =>
    obtain ⟨h, -⟩ := Prod.mk.inj h
    cases h
    exact Lexeme.classify_of_malformed hk
  | case5 =>
    obtain ⟨h, -⟩ := Prod.mk.inj h
    cases h
    rfl

theorem classify_of_drainOnto {readings : Array Reading} {reader : Reader} {error : Error}
    (h : .error error ∈ (reader.drainOnto readings).1) :
    .error error ∈ readings ∨ error.classify = .lexical := by
  have hpush {readings : Array Reading} {reader after : Reader} {reading : Reading}
      (hn : reader.next = (reading, after)) (h : .error error ∈ readings.push reading) :
      .error error ∈ readings ∨ error.classify = .lexical := by
    rcases Array.mem_push.1 h with h | rfl
    · exact .inl h
    · exact .inr (classify_of_next hn)
  fun_induction drainOnto readings reader with
  | case1 => exact .inl h
  | case2 readings reader _ reading after hn => exact hpush hn h
  | case3 readings reader _ reading after hn _ _ ih =>
    rcases ih h with h | h
    · exact hpush hn h
    · exact .inr h

end Reader

/-- What the errors of a source can be, under the limits of `options`. -/
inductive OfOneStage (options : Options) : List Error → Prop
  /-- The source is too large to be read. -/
  | bytes (h : error.cause = .limitExceeded .bytes options.byteLimit) : OfOneStage options [error]
  /-- There is malformed text. -/
  | lexical (hn : errors ≠ []) (h : ∀ error ∈ errors, error.classify = .lexical) :
      OfOneStage options errors
  /-- There may be malformed text before the token that is one too many. -/
  | tokens (h : ∀ error ∈ errors, error.classify = .lexical) (hm : options.maxTokens = some limit)
      (hl : last.cause = .limitExceeded .tokens limit) : OfOneStage options (errors ++ [last])
  /-- There may be tokens that no rule takes. -/
  | syntactic (h : ∀ error ∈ errors, error.classify = .syntactic) : OfOneStage options errors
  /-- The parse has come to constructs that are nested too deeply. -/
  | depth (h : ∀ error ∈ errors, error.classify = .syntactic)
      (hl : last.cause = .limitExceeded .depth options.maxDepth) :
      OfOneStage options (errors ++ [last])

namespace Tokens

theorem collect_ofOneStage {options : Options} {file : String} {tokens : Array Token}
    {errors : Array Error} {readings : List Reading} {refused : List Error}
    (he : ∀ error ∈ errors.toList, error.classify = .lexical)
    (hr : ∀ error, .error error ∈ readings → error.classify = .lexical)
    (h : collect options file tokens errors readings = .error refused) :
    OfOneStage options refused := by
  have hfinish {tokens : Array Token} (h : collect.finish errors tokens = .error refused) :
      OfOneStage options refused := by
    unfold collect.finish at h
    split at h <;> cases h
    rename_i hn
    exact .lexical (by simpa using hn) he
  induction readings generalizing tokens errors with
  | nil => exact hfinish h
  | cons reading readings ih =>
    have hrest (error : Error) (h : .error error ∈ readings) : error.classify = .lexical :=
      hr error (List.mem_cons_of_mem _ h)
    cases reading with
    | token token =>
      rw [collect] at h
      split at h
      · exact hfinish h
      split at h
      · rename_i max hm
        split at h
        · cases h
          rw [Array.toList_push]
          exact .tokens he hm rfl
        · exact ih he hrest h hfinish
      · exact ih he hrest h hfinish
    | error error =>
      have he : ∀ e ∈ (errors.push error).toList, e.classify = .lexical := by
        intro e hm
        rw [Array.toList_push] at hm
        rcases List.mem_append.1 hm with hm | hm
        · exact he e hm
        · rw [List.mem_singleton.1 hm]
          exact hr error List.mem_cons_self
      rw [collect] at h
      split at h
      · cases h
        exact .lexical (by simp) he
      · refine ih he hrest h fun h => ?_
        unfold collect.finish at h
        split at h <;> cases h
        exact .lexical (by simp) he
    | misplaced => exact hfinish h

theorem ofSource_ofOneStage {source file : String} {options : Options} {errors : List Error}
    (h : ofSource source file options = .error errors) : OfOneStage options errors := by
  unfold ofSource at h
  split at h
  · cases h
    exact .bytes rfl
  · have hc : collect options file #[] #[] (Reader.ofSource source file).drain.1 =
        .error errors := by
      simp only at h
      cases hc : collect options file #[] #[] (Reader.ofSource source file).drain.1 with
      | ok tokens =>
        rw [hc] at h
        cases h
      | error refused =>
        rw [hc] at h
        cases h
        rfl
    refine collect_ofOneStage (by simp) (fun error hm => ?_) hc
    exact (Reader.classify_of_drainOnto (Array.mem_toList_iff.1 hm)).resolve_left (by simp)

end Tokens

namespace Parse

/-! ## Errors of the rules -/

/-- Every error of a step is about a token, unless it is the limit on nesting. -/
theorem Script.classify {step : Parse α} (script : Script step) {setup : Setup} {s s' : State}
    {error : Error} (h : step setup s = .stopped (.error error) s') :
    error.classify = .syntactic ∨ error.cause = .limitExceeded .depth setup.maxDepth := by
  induction script generalizing s s' error with
  | pure | look | given | exhausted | advance | push | reset => cases h
  | @refuse _ step hm =>
    obtain ⟨e, he, hc⟩ := hm.makes setup s
    change Parse.bind step _ setup s = _ at h
    simp only [Parse.bind, he] at h
    cases h
    exact .inl hc.2
  | node id =>
    unfold Parse.node at h
    split at h <;> cases h
  | @bind _ _ step next first rest ihf ihr =>
    change Parse.bind step next setup s = _ at h
    unfold Parse.bind at h
    cases ho : step setup s with
    | done a s₁ =>
      rw [ho] at h
      exact ihr a h
    | stopped why s₁ =>
      rw [ho] at h
      cases h
      exact ihf ho
  | @inside _ step delimiter construct opening script ih =>
    unfold Parse.inside mapError at h
    split at h
    · rename_i error' s₁ ho
      cases h
      rcases ih ho with hc | hc
      · exact .inl ((error'.classify_inside _ _ _).trans hc)
      · exact .inr (by simp [Error.inside, Error.isAtEnd, hc])
    · exact ih h
  | @attempt _ step script ih =>
    unfold Parse.attempt at h
    split at h
    · cases h
    · cases h
    · rename_i why s₁ hne ho
      cases h
      exact absurd rfl (hne error)
  | @nested _ step script ih =>
    rw [nested_apply] at h
    split at h
    · split at h
      · cases h
      · rename_i ho
        cases h
        exact ih ho
      · rename_i ho
        cases h
        exact ih ho
    · cases h
      exact .inr rfl

/-! ## Errors of a header -/

class Shallow (step : Parse α) : Prop where
  shallow {setup : Setup} {s s' : State} {error : Error}
    (h : step setup s = .stopped (.error error) s') : error.classify = .syntactic

namespace Shallow

instance (value : α) : Shallow (pure value) := ⟨fun h => by cases h⟩

instance (f : State → α) : Shallow (look f) := ⟨fun h => by cases h⟩

instance : Shallow (stop .exhausted : Parse α) := ⟨fun h => by cases h⟩

instance : Shallow advance := ⟨fun h => by cases h⟩

instance (shape : Shape) (span : Span) : Shallow (push shape span) := ⟨fun h => by cases h⟩

instance {error : Parse Error} [he : MakesError error] :
    Shallow (do refuse (← error) : Parse α) where
  shallow {setup s _ _} h := by
    obtain ⟨e, he, -, hc⟩ := he.makes setup s
    change Parse.bind error _ setup s = _ at h
    simp only [Parse.bind, he] at h
    cases h
    exact hc

theorem bind {step : Parse α} {next : α → Parse β} (hs : Shallow step)
    (hn : ∀ a, Shallow (next a)) : Shallow (step >>= next) where
  shallow {setup s _ _} h := by
    change Parse.bind step next setup s = _ at h
    unfold Parse.bind at h
    cases ho : step setup s with
    | done a s₁ =>
      rw [ho] at h
      exact (hn a).shallow h
    | stopped why s₁ =>
      rw [ho] at h
      cases h
      exact hs.shallow ho

instance {step : Parse α} {next : α → Parse β} [hs : Shallow step]
    [hn : ∀ a, Shallow (next a)] : Shallow (step >>= next) := bind hs hn

instance (f : α → β) {step : Parse α} [Shallow step] : Shallow (f <$> step) :=
  inferInstanceAs (Shallow (step >>= fun value => pure (f value)))

instance {c : Prop} [Decidable c] {step other : Parse α} [Shallow step] [Shallow other] :
    Shallow (if c then step else other) := by
  split <;> infer_instance

theorem iterate {turn : α → Parse (Turn α β)} [∀ a, Shallow (turn a)] (turns : Nat) (a : α) :
    Shallow (iterate turn turns a) := by
  induction turns generalizing a with
  | zero => exact inferInstanceAs (Shallow (stop .exhausted))
  | succ turns ih =>
    refine bind inferInstance fun result => ?_
    cases result with
    | again a => exact ih a
    | finish b => infer_instance

instance {step : Parse (Option (α × Bool))} [Shallow step] : Shallow (collect step) := by
  unfold collect loop
  have (items : List α) (item : Option (α × Bool)) : Shallow (match item with
      | none => pure (.finish items.reverse)
      | some (item, true) => pure (.again (item :: items))
      | some (item, false) => pure (.finish (item :: items).reverse) :
        Parse (Turn (List α) (List α))) := by
    split <;> infer_instance
  have (turns : Nat) : Shallow (Parse.iterate (fun items : List α => do
      match ← step with
      | none => return .finish items.reverse
      | some (item, true) => return .again (item :: items)
      | some (item, false) => return .finish (item :: items).reverse) (turns + 1) []) :=
    Shallow.iterate (turns + 1) []
  infer_instance

instance : Shallow name := by unfold name; infer_instance

instance : Shallow path := by unfold path eat isAt; infer_instance

instance : Shallow header := by unfold header eatWord pushFrom; infer_instance

end Shallow

/-! ## Errors of a module -/

/-- What a parse has come to has errors about tokens only, unless it was given up at the limit on
nesting, which is then the last of them. -/
def Progress.OfRules (setup : Setup) (p : Progress) : Prop :=
  (∀ error ∈ p.errors.toList, error.classify = .syntactic) ∨
    p.state = none ∧ ∃ errors last, p.errors.toList = errors ++ [last] ∧
      (∀ error ∈ errors, error.classify = .syntactic) ∧
      last.cause = .limitExceeded .depth setup.maxDepth

theorem topLevel_ofRules {setup : Setup} {strict : Bool} {turns : Nat} {s : State}
    {ids : Array NodeId} {errors : Array Error}
    (he : ∀ error ∈ errors.toList, error.classify = .syntactic) :
    (topLevel setup strict turns s ids errors).OfRules setup := by
  induction turns generalizing s ids errors with
  | zero => exact .inl he
  | succ turns ih =>
    cases ht : s.hasTokens with
    | false =>
      rw [topLevel_end ht]
      exact .inl he
    | true =>
      cases ho : (Rule.form .statement).parse setup s with
      | done id s' =>
        rw [topLevel_statement ht ho]
        exact ih he
      | stopped why s' =>
        cases why with
        | error error =>
          rcases (Script.instRunWith _ _).classify ho with hc | hc
          · have hne : error.classify ≠ .resource := by simp [hc]
            have hpush : ∀ e ∈ (errors.push error).toList, e.classify = .syntactic := by
              intro e hm
              rw [Array.toList_push] at hm
              rcases List.mem_append.1 hm with hm | hm
              · exact he e hm
              · rwa [List.mem_singleton.1 hm]
            cases strict with
            | true =>
              simp only [topLevel, ht, ho, hne, if_true, if_false]
              exact .inl hpush
            | false =>
              rw [topLevel_recover ht ho hne]
              exact ih hpush
          · rw [topLevel_limit ht ho (by simp [Error.classify, hc, Cause.classify])]
            exact .inr ⟨rfl, errors.toList, error, Array.toList_push, he, hc⟩
        | missingNode | exhausted =>
          simp only [topLevel, ht, ho, if_true]
          exact .inl he

end Parse

namespace Parsed

open Parse

/-- A parse that its tokens or a limit have refused has no tree to show. -/
structure Staged (file : String) (options : Options) (parsed : Parsed) : Prop where
  errors : OfOneStage options parsed.errors
  tree : (∃ error ∈ parsed.errors, error.classify ≠ .syntactic) → parsed.tree = { file }

theorem ofProgress_staged {file : String} {options : Options} {trivia : Array Trivia}
    {header : Option NodeId} {p : Progress} (h : p.OfRules (.standard file options)) :
    (ofProgress file trivia header p).Staged file options := by
  rcases h with h | ⟨hs, errors, last, he, h, hl⟩
  · refine ⟨.syntactic h, ?_⟩
    rintro ⟨error, hm, hc⟩
    exact absurd (h error hm) hc
  · refine ⟨?_, fun _ => ?_⟩
    · rw [ofProgress, he]
      exact .depth h hl
    · simp only [ofProgress, hs]

theorem ofTokens_staged (tokens : Tokens) (file : String) (options : Options) :
    (ofTokens tokens file options).Staged file options := by
  have hnone : ∀ error ∈ (#[] : Array Error).toList, error.classify = .syntactic := by simp
  have hempty {errors : List Error} (h : ∀ error ∈ errors, error.classify = .syntactic) :
      Staged file options { tree := { file }, errors } := ⟨.syntactic h, fun _ => rfl⟩
  unfold ofTokens
  cases ho : header (.standard file options) (State.start tokens.tokens) with
  | done first s =>
    simp only [ho]
    exact ofProgress_staged (topLevel_ofRules hnone)
  | stopped why s =>
    simp only [ho]
    cases why with
    | error error =>
      have hc : ∀ e ∈ [error], e.classify = .syntactic := by
        simpa using (inferInstance : Shallow header).shallow ho
      cases options.isStrict with
      | true => exact hempty hc
      | false => exact ofProgress_staged (topLevel_ofRules hc)
    | missingNode | exhausted => exact hempty hnone

/-- All errors of a source are of one stage, and a limit that is exceeded is the last of them.  With
malformed text or a limit exceeded there is nothing in the tree. -/
theorem ofSource_stages (source file : String) (options : Options) :
    let parsed := ofSource source file options
    OfOneStage options parsed.errors ∧
      ((∃ error ∈ parsed.errors, error.classify ≠ .syntactic) →
        parsed.tree =
          { file, nodes := #[], header := none, statements := [], trivia := #[] }) := by
  intro parsed
  have h : parsed.Staged file options := by
    unfold parsed ofSource
    cases ht : Tokens.ofSource source file options with
    | ok tokens => exact ofTokens_staged tokens file options
    | error errors => exact ⟨Tokens.ofSource_ofOneStage ht, fun _ => rfl⟩
  exact ⟨h.errors, h.tree⟩

end Parsed
end Smaug
