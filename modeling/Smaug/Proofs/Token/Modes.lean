import Mathlib
import Smaug.Token.Tokens

/-! # Modes of reading

In recover mode every error of a source is collected, in strict mode the first ends the reading.
Up to that error both modes read the same.
-/

namespace Smaug

def Options.recovering (options : Options) : Options := { options with mode := .recover }

@[simp] theorem Options.isStrict_strict (options : Options) : options.strict.isStrict = true := rfl

@[simp] theorem Options.isStrict_recovering (options : Options) :
    options.recovering.isStrict = false := rfl

@[simp] theorem Options.maxTokens_strict (options : Options) :
    options.strict.maxTokens = options.maxTokens := rfl

@[simp] theorem Options.maxTokens_recovering (options : Options) :
    options.recovering.maxTokens = options.maxTokens := rfl

namespace Tokens

variable {options : Options} {file : String} {tokens : Array Token} {errors : Array Error}

theorem finish_errors (he : errors.isEmpty = false) :
    ∃ more, collect.finish errors tokens = .error (errors.toList ++ more) := by
  refine ⟨[], ?_⟩
  rw [collect.finish, he, List.append_nil]
  rfl

/-- Errors collected so far stay in front. -/
theorem collect_errors (he : errors.isEmpty = false) (readings : List Reading) :
    ∃ more, collect options file tokens errors readings = .error (errors.toList ++ more) := by
  induction readings generalizing tokens errors with
  | nil => exact finish_errors he
  | cons reading readings ih =>
    cases reading with
    | token token =>
      rw [collect]
      split
      · exact finish_errors he
      · split
        · split
          · exact ⟨_, congrArg Except.error Array.toList_push⟩
          · exact ih he
        · exact ih he
    | error e =>
      rw [collect]
      split
      · exact ⟨_, congrArg Except.error Array.toList_push⟩
      · have hp : (errors.push e).isEmpty = false := by simp
        obtain ⟨more, hm⟩ := ih hp
        refine ⟨e :: more, ?_⟩
        rw [hm, Array.toList_push, List.append_assoc, List.singleton_append]
    | misplaced => exact finish_errors he

theorem collect_strict (options : Options) (file : String) (tokens : Array Token)
    (readings : List Reading) :
    collect options.strict file tokens #[] readings =
      (collect options.recovering file tokens #[] readings).mapError (List.take 1) := by
  induction readings generalizing tokens with
  | nil => rfl
  | cons reading readings ih =>
    cases reading with
    | token token =>
      rw [collect, collect]
      split
      · rfl
      · rw [Options.maxTokens_strict, Options.maxTokens_recovering]
        split
        · split
          · rfl
          · exact ih _
        · exact ih _
    | error e =>
      have he : (#[].push e).isEmpty = false := rfl
      obtain ⟨more, hm⟩ := collect_errors he readings
      rw [collect, collect, Options.isStrict_strict, Options.isStrict_recovering, if_pos rfl,
        if_neg Bool.false_ne_true, hm]
      rfl
    | misplaced => rfl

/-- In strict mode a source has the same tokens, or the first of its errors. -/
theorem ofSource_strict (source file : String) (options : Options) :
    ofSource source file options.strict =
      (ofSource source file options.recovering).mapError (List.take 1) := by
  have hlimit : options.strict.byteLimit = options.recovering.byteLimit := rfl
  unfold ofSource
  rw [hlimit]
  split
  · rfl
  · simp only [collect_strict]
    cases collect options.recovering file #[] #[] _ <;> rfl

end Tokens
end Smaug
