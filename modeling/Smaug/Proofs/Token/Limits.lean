import Mathlib
import Smaug.Proofs.Token.Boundary

/-! # The limits on bytes and tokens are exact

A source of more bytes than the limit is refused as a whole.  The limit on tokens is met at the
first well-formed token that is one too many: malformed text and the end of the input do not count.
A source that meets no limit is read as if there were none.
-/

namespace Smaug

/-- The well-formed token of a reading, if it is one; the end of the input is none. -/
def Reading.wellFormed? : Reading → Option Token
  | .token read => if read.kind = .eof then none else some read
  | .error _ | .misplaced => none

def Reading.error? : Reading → Option Error
  | .error cause => some cause
  | .token _ | .misplaced => none

/-- The same options with no limit on bytes but that of spans, and none on tokens. -/
def Options.unlimited (options : Options) : Options :=
  { options with maxBytes := none, maxTokens := none }

@[simp] theorem Options.isStrict_unlimited (options : Options) :
    options.unlimited.isStrict = options.isStrict := rfl

/-- Where a function has a value more than `n` times in a list, the list is cut at the entry for the
value after the first `n`. -/
theorem exists_cut_filterMap {f : α → Option β} {xs : List α} {n : Nat}
    (h : n < (xs.filterMap f).length) :
    ∃ before x y after, xs = before ++ x :: after ∧ f x = some y ∧
      (before.filterMap f).length = n := by
  induction xs generalizing n with
  | nil => cases h
  | cons x xs ih =>
    cases hx : f x with
    | none =>
      rw [List.filterMap_cons_none hx] at h
      obtain ⟨before, z, y, after, rfl, hz, hn⟩ := ih h
      exact ⟨x :: before, z, y, after, rfl, hz, by rwa [List.filterMap_cons_none hx]⟩
    | some y =>
      cases n with
      | zero => exact ⟨[], x, y, xs, rfl, hx, rfl⟩
      | succ n =>
        rw [List.filterMap_cons_some hx, List.length_cons] at h
        obtain ⟨before, z, y', after, rfl, hz, hn⟩ := ih (Nat.lt_of_succ_lt_succ h)
        exact ⟨x :: before, z, y', after, rfl, hz, by
          rw [List.filterMap_cons_some hx, List.length_cons, hn]⟩

namespace Tokens

variable {options : Options} {file : String} {tokens : Array Token} {errors : Array Error}

theorem wellFormed?_token {token : Token} (hk : token.kind ≠ .eof) :
    Reading.wellFormed? (.token token) = some token :=
  if_neg hk

theorem eq_of_wellFormed? {reading : Reading} {token : Token}
    (h : reading.wellFormed? = some token) : reading = .token token ∧ token.kind ≠ .eof := by
  cases reading with
  | token found =>
    by_cases hk : found.kind = .eof
    · simp [Reading.wellFormed?, hk] at h
    · rw [wellFormed?_token hk] at h
      cases h
      exact ⟨rfl, hk⟩
  | error | misplaced => cases h

/-- Up to the limit on tokens, readings are collected as if there was none. -/
theorem collect_unlimited {readings : List Reading}
    (h : ∀ max, options.maxTokens = some max →
      tokens.size + (readings.filterMap Reading.wellFormed?).length ≤ max) :
    collect options file tokens errors readings =
      collect options.unlimited file tokens errors readings := by
  induction readings generalizing tokens errors with
  | nil => rfl
  | cons reading readings ih =>
    cases reading with
    | token token =>
      by_cases hk : token.kind = .eof
      · rw [collect, collect, if_pos hk, if_pos hk]
      · have hcount {max : Nat} (hm : options.maxTokens = some max) :
            tokens.size + 1 + (readings.filterMap Reading.wellFormed?).length ≤ max := by
          have hle := h max hm
          rw [List.filterMap_cons_some (wellFormed?_token hk), List.length_cons] at hle
          omega
        have hrest := @ih (tokens.push token) errors fun max hm => by
          rw [Array.size_push]
          exact hcount hm
        rw [collect, collect, if_neg hk, if_neg hk]
        cases hm : options.maxTokens with
        | none => exact hrest
        | some max =>
          have hlt : ¬max ≤ tokens.size := by
            have := hcount hm
            omega
          simp only [hlt, if_false]
          exact hrest
    | error error =>
      rw [collect, collect, Options.isStrict_unlimited]
      split
      · rfl
      · exact ih h
    | misplaced => rfl

/-- Readings are collected up to the token beyond the limit. -/
theorem collect_limit {max : Nat} (hs : options.isStrict = false)
    (hm : options.maxTokens = some max) {before after : List Reading} {token : Token}
    (hb : ∀ reading ∈ before, reading.wellFormed?.isSome ∨ reading.error?.isSome)
    (hk : token.kind ≠ .eof)
    (hmax : tokens.size + (before.filterMap Reading.wellFormed?).length = max) :
    collect options file tokens errors (before ++ .token token :: after) =
      .error (errors.toList ++ before.filterMap Reading.error? ++
        [tooManyTokens token max file]) := by
  induction before generalizing tokens errors with
  | nil =>
    have hle : max ≤ tokens.size := Nat.le_of_eq hmax.symm
    rw [List.nil_append, collect, if_neg hk, hm]
    simp only [hle, if_true, Array.toList_push, List.filterMap_nil, List.append_nil]
  | cons reading before ih =>
    obtain ⟨hr, hrest⟩ := List.forall_mem_cons.1 hb
    cases reading with
    | token found =>
      have hf : found.kind ≠ .eof := by
        rintro hf
        simp [Reading.wellFormed?, Reading.error?, hf] at hr
      rw [List.filterMap_cons_some (wellFormed?_token hf), List.length_cons] at hmax
      have hlt : ¬max ≤ tokens.size := by omega
      rw [List.cons_append, collect, if_neg hf, hm]
      simp only [hlt, if_false]
      exact ih hrest (by rw [Array.size_push]; omega)
    | error error =>
      rw [List.cons_append, collect, hs, if_neg Bool.false_ne_true, ih hrest hmax]
      simp [Reading.error?]
    | misplaced => simp [Reading.wellFormed?, Reading.error?] at hr

/-- Before its last reading, a reader yields tokens and errors only. -/
theorem ofSource_readings {source : String} (file : String)
    (h : source.utf8ByteSize ≤ Span.maxOffset) :
    ∃ readings : List Reading, (Reader.ofSource source file).drain.1 =
        readings ++ [.token (.endAt (.emptyAt source.utf8ByteSize))] ∧
      ∀ reading ∈ readings, reading.wellFormed?.isSome ∨ reading.error?.isSome := by
  obtain ⟨before, last, -, -, -, -, hdrain, -⟩ := Reader.ofSource_run source file h
  refine ⟨_, by rw [hdrain], fun reading hr => ?_⟩
  obtain ⟨⟨region, passed⟩, hi, hp⟩ := List.mem_filterMap.1 hr
  have hfill := regions_fill file 0 source.toList _ hi
  cases passed with
  | trivia => cases hp
  | reading yielded =>
    cases hp
    cases reading with
    | token token => exact .inl (by rw [wellFormed?_token hfill.2]; rfl)
    | error error => exact .inr rfl
    | misplaced => exact hfill.elim

theorem ofSource_tooLarge {source file : String} (h : options.byteLimit < source.utf8ByteSize) :
    ofSource source file options =
      .error [tooManyBytes source.utf8ByteSize options.byteLimit file] := by
  rw [ofSource, if_pos h]

theorem ofSource_eq_collect {source file : String} (h : source.utf8ByteSize ≤ options.byteLimit) :
    let run := (Reader.ofSource source file).drain
    ofSource source file options =
      (collect options file #[] #[] run.1).map (⟨·, run.2.trivia⟩) := by
  rw [ofSource, if_neg (Nat.not_lt_of_le h)]

theorem ofSource_limit {source file : String} (hs : options.isStrict = false)
    (h : source.utf8ByteSize ≤ options.byteLimit) {max : Nat} (hm : options.maxTokens = some max)
    (hlt : max < ((Reader.ofSource source file).drain.1.filterMap Reading.wellFormed?).length) :
    ∃ (before : List Reading) (token : Token) (after : List Reading),
      (Reader.ofSource source file).drain.1 = before ++ .token token :: after ∧
      token.kind ≠ .eof ∧ (before.filterMap Reading.wellFormed?).length = max ∧
      ofSource source file options =
        .error (before.filterMap Reading.error? ++ [tooManyTokens token max file]) := by
  obtain ⟨readings, hreadings, hread⟩ :=
    ofSource_readings file (Nat.le_trans h (Nat.min_le_right _ _))
  obtain ⟨before, reading, token, after, hsplit, hreading, hmax⟩ := exists_cut_filterMap hlt
  obtain ⟨rfl, hk⟩ := eq_of_wellFormed? hreading
  have hb : ∀ reading ∈ before, reading.wellFormed?.isSome ∨ reading.error?.isSome := by
    intro reading hr
    refine hread reading ?_
    have hdrop := congrArg List.dropLast (hreadings.symm.trans hsplit)
    rw [List.dropLast_concat, List.dropLast_append_of_ne_nil (List.cons_ne_nil _ _)] at hdrop
    rw [hdrop]
    exact List.mem_append_left _ hr
  refine ⟨before, token, after, hsplit, hk, hmax, ?_⟩
  have hcollect : collect options file #[] #[] (before ++ .token token :: after) = _ :=
    collect_limit hs hm hb hk (by simpa using hmax)
  rw [ofSource_eq_collect h, hsplit, hcollect]
  rfl

theorem ofSource_unlimited {source file : String} (h : source.utf8ByteSize ≤ options.byteLimit)
    (hmax : ∀ max, options.maxTokens = some max →
      ((Reader.ofSource source file).drain.1.filterMap Reading.wellFormed?).length ≤ max) :
    ofSource source file options = ofSource source file options.unlimited := by
  have hbytes : options.byteLimit ≤ options.unlimited.byteLimit :=
    Nat.le_trans (Nat.min_le_right _ _) (Nat.le_of_eq (Nat.min_self _).symm)
  have hcollect : collect options file #[] #[] (Reader.ofSource source file).drain.1 = _ :=
    collect_unlimited (by simpa using hmax)
  rw [ofSource_eq_collect h, ofSource_eq_collect (Nat.le_trans h hbytes), hcollect]

theorem collect_error_ne_nil {readings : List Reading} {all : List Error}
    (h : collect options file tokens errors readings = .error all) : all ≠ [] := by
  have hfinish {tokens : Array Token} {errors : Array Error}
      (h : collect.finish errors tokens = .error all) : all ≠ [] := by
    unfold collect.finish at h
    split at h
    · cases h
    · rename_i he
      cases h
      simpa using he
  fun_induction collect options file tokens errors readings with
  | case1 | case7 | case8 => exact hfinish h
  | case2 | case5 =>
    cases h
    simp
  | case3 _ _ _ _ _ _ _ _ ih | case4 _ _ _ _ _ _ ih | case6 _ _ _ _ _ ih => exact ih h

theorem ofSource_error_ne_nil {source file : String} {all : List Error}
    (h : ofSource source file options = .error all) : all ≠ [] := by
  by_cases hsize : options.byteLimit < source.utf8ByteSize
  · rw [ofSource_tooLarge hsize] at h
    cases h
    simp
  · rw [ofSource_eq_collect (Nat.le_of_not_lt hsize)] at h
    cases hc : collect options file #[] #[] (Reader.ofSource source file).drain.1 with
    | ok tokens => simp [hc, Except.map] at h
    | error errors =>
      simp only [hc, Except.map, Except.error.injEq] at h
      exact h ▸ collect_error_ne_nil hc

/-- The limits of a reading.  A source of more bytes than the limit gives the one error about that.
Otherwise a token beyond the limit ends the reading, after the errors before it; a source without
such a token is read as if there was no limit.  Strict mode gives the same tokens, or the first of
the errors. -/
theorem ofSource_limits (source file : String) (options : Options) :
    let size := source.utf8ByteSize
    let limit := min (options.maxBytes.getD Span.maxOffset) Span.maxOffset
    let readings := (Reader.ofSource source file).drain.1
    (limit < size →
      ofSource source file options =
        .error [{ cause := .limitExceeded .bytes limit, span := ⟨limit, min size Span.maxOffset⟩,
                  file := some file }]) ∧
    (size ≤ limit → ∀ max, options.maxTokens = some max →
      max < (readings.filterMap Reading.wellFormed?).length →
      ∃ before token after, readings = before ++ .token token :: after ∧ token.kind ≠ .eof ∧
        (before.filterMap Reading.wellFormed?).length = max ∧
        ofSource source file options.recovering =
          .error (before.filterMap Reading.error? ++
            [{ cause := .limitExceeded .tokens max, span := token.span, file := some file }])) ∧
    (size ≤ limit →
      (∀ max, options.maxTokens = some max →
        (readings.filterMap Reading.wellFormed?).length ≤ max) →
      ofSource source file options = ofSource source file options.unlimited) ∧
    (∀ tokens, ofSource source file options.strict = .ok tokens ↔
      ofSource source file options.recovering = .ok tokens) ∧
    ∀ errors, ofSource source file options.strict = .error errors →
      ∃ error more, ofSource source file options.recovering = .error (error :: more) ∧
        errors = [error] := by
  intro size limit readings
  refine ⟨ofSource_tooLarge, fun h max hm hlt => ?_, ofSource_unlimited, fun tokens => ?_,
    fun errors h => ?_⟩
  · exact ofSource_limit (Options.isStrict_recovering options) h hm hlt
  · rw [ofSource_strict]
    cases ofSource source file options.recovering <;> simp [Except.mapError]
  · rw [ofSource_strict] at h
    cases hr : ofSource source file options.recovering with
    | ok tokens => simp [hr, Except.mapError] at h
    | error all =>
      obtain ⟨error, more, rfl⟩ := List.exists_cons_of_ne_nil (ofSource_error_ne_nil hr)
      simp only [hr, Except.mapError, List.take_succ_cons, List.take_zero, Except.error.injEq] at h
      exact ⟨error, more, rfl, h.symm⟩

theorem ofSource_limits_malformed :
    let source := "a \"\\q\" b"
    let readings := (Reader.ofSource source "a.sm").drain.1
    let escape : Error :=
      { cause := .invalidEscape 'q', span := ⟨3, 5⟩, file := some "a.sm" }
    (7 < source.utf8ByteSize ∧
      ofSource source "a.sm" { maxBytes := some 7 } =
        .error [{ cause := .limitExceeded .bytes 7, span := ⟨7, 8⟩, file := some "a.sm" }]) ∧
    (1 < (readings.filterMap Reading.wellFormed?).length ∧
      ∃ before token after, readings = before ++ .token token :: after ∧ token.kind ≠ .eof ∧
        (before.filterMap Reading.wellFormed?).length = 1 ∧
        ofSource source "a.sm" { maxBytes := some 8, maxTokens := some 1 } =
          .error (before.filterMap Reading.error? ++
            [{ cause := .limitExceeded .tokens 1, span := token.span, file := some "a.sm" }])) ∧
    ((readings.filterMap Reading.wellFormed?).length ≤ 2 ∧
      ofSource source "a.sm" { maxTokens := some 2 } = ofSource source "a.sm" {}) ∧
    ofSource source "a.sm" { mode := .strict } = .error [escape] ∧
      ∃ more, ofSource source "a.sm" {} = .error (escape :: more) := by
  intro source readings escape
  have hcount : (readings.filterMap Reading.wellFormed?).length = 2 := by decide +kernel
  have hlt : 1 < (readings.filterMap Reading.wellFormed?).length := by omega
  have hle : (readings.filterMap Reading.wellFormed?).length ≤ 2 := by omega
  have hstrict : ofSource source "a.sm" { mode := .strict } = .error [escape] := by decide +kernel
  obtain ⟨error, more, hmore, he⟩ := (ofSource_limits source "a.sm" {}).2.2.2.2 [escape] hstrict
  cases he
  refine ⟨⟨by decide, ?_⟩, ⟨hlt, ?_⟩, ⟨hle, ?_⟩, hstrict, more, hmore⟩
  · exact (ofSource_limits source "a.sm" { maxBytes := some 7 }).1 (by decide)
  · exact (ofSource_limits source "a.sm" { maxBytes := some 8, maxTokens := some 1 }).2.1
      (by decide) 1 rfl hlt
  · refine (ofSource_limits source "a.sm" { maxTokens := some 2 }).2.2.1 (by decide) ?_
    intro max hmax
    cases hmax
    exact hle

end Tokens

end Smaug
