import Smaug.Proofs.Parse.Alike.Module
import Smaug.Proofs.Parse.Reached
import Smaug.Proofs.Token.Modes

/-! # Modes of a parse

Rules know nothing of the mode of a parse; it only decides what follows a failure.  So up to the
first error both modes do the same, and what strict mode has then is what recover mode goes on from.
-/

namespace Smaug

namespace Parse

/-- What a parse goes on from, it ends with: the statements, the errors and the nodes it had.  It
gives up the tree only with an error that says so. -/
structure Progress.Continues (s : State) (ids : Array NodeId) (errors : Array Error)
    (p : Progress) : Prop where
  statements : ids.toList <+: p.statements.toList
  errors : errors.toList <+: p.errors.toList
  nodes : ∀ s', p.state = some s' → s.nodes.toList <+: s'.nodes.toList
  resource : p.state = none → ∃ error ∈ p.errors.toList, error.classify = .resource

variable {setup : Setup} {s : State} {ids : Array NodeId} {errors : Array Error}

theorem Progress.Continues.here {s' : State} (hn : s'.nodes = s.nodes) :
    Progress.Continues s ids errors ⟨some s', ids, errors⟩ where
  statements := List.prefix_refl _
  errors := List.prefix_refl _
  nodes := by
    rintro _ ⟨⟩
    exact prefix_of_nodes_eq hn
  resource h := by cases h

theorem Progress.Continues.mono {p : Progress} {s' : State} {ids' : Array NodeId}
    {errors' : Array Error} (hn : s.nodes.toList <+: s'.nodes.toList)
    (hids : ids.toList <+: ids'.toList) (he : errors.toList <+: errors'.toList)
    (h : p.Continues s' ids' errors') : p.Continues s ids errors where
  statements := hids.trans h.statements
  errors := he.trans h.errors
  nodes s'' hs := hn.trans (h.nodes s'' hs)
  resource := h.resource

theorem topLevel_continues (strict : Bool) (turns : Nat) :
    (topLevel setup strict turns s ids errors).Continues s ids errors := by
  induction turns generalizing s ids errors with
  | zero => exact .here rfl
  | succ turns ih =>
    have hk := keeps (Rule.form .statement).parse setup s
    rw [topLevel]
    by_cases ht : s.hasTokens
    · rw [if_pos ht]
      cases ho : (Rule.form .statement).parse setup s with
      | done id s' =>
        rw [ho] at hk
        have hids : ids.toList <+: (ids.push id).toList := by
          rw [Array.toList_push]
          exact List.prefix_append _ _
        exact ih.mono hk.nodes hids (List.prefix_refl _)
      | stopped why s' =>
        rw [ho] at hk
        have hd := (State.discard_mark hk.grown).2
        have hr := (recover_kept hk.grown).2
        cases why with
        | error e =>
          have he : errors.toList <+: (errors.push e).toList := by
            rw [Array.toList_push]
            exact List.prefix_append _ _
          have hids := List.prefix_refl ids.toList
          have hn := List.prefix_refl s.nodes.toList
          dsimp only
          by_cases hc : e.classify = .resource
          · rw [if_pos hc]
            refine ⟨hids, he, by simp, fun _ => ⟨e, ?_, hc⟩⟩
            simp
          · rw [if_neg hc]
            cases strict with
            | true => exact (Progress.Continues.here hd).mono hn hids he
            | false => exact ih.mono (prefix_of_nodes_eq hr) hids he
        | missingNode => exact .here hd
        | exhausted => exact .here hd
    · rw [if_neg ht]
      exact .here rfl

structure Progress.StopsShort (recovered strict : Progress) : Prop where
  errors : strict.errors.toList = recovered.errors.toList.take 1
  same : recovered.errors.toList = [] → strict = recovered
  statements : strict.statements.toList <+: recovered.statements.toList
  nodes : ∀ s', recovered.state = some s' →
    ∃ s, strict.state = some s ∧ s.nodes.toList <+: s'.nodes.toList

theorem Progress.StopsShort.refl {p : Progress} (h : p.errors.size ≤ 1) : p.StopsShort p where
  errors := (List.take_of_length_le (by simpa using h)).symm
  same _ := rfl
  statements := List.prefix_refl _
  nodes s' hs := ⟨s', hs, List.prefix_refl _⟩

/-- Whoever stops at an error stops short of whoever goes on from it. -/
theorem Progress.Continues.stopsShort {p : Progress} {s' : State} {e : Error}
    (hn : s'.nodes = s.nodes) (h : p.Continues s ids #[e]) :
    p.StopsShort ⟨some s', ids, #[e]⟩ := by
  obtain ⟨more, hm⟩ := h.errors
  refine ⟨?_, ?_, h.statements, fun s'' hs => ⟨s', rfl, ?_⟩⟩
  · rw [← hm]
    rfl
  · rw [← hm]
    simp
  · rw [hn]
    exact h.nodes s'' hs

theorem topLevel_stopsShort (turns : Nat) :
    (topLevel setup false turns s ids #[]).StopsShort (topLevel setup true turns s ids #[]) := by
  induction turns generalizing s ids with
  | zero => exact .refl (Nat.zero_le 1)
  | succ turns ih =>
    have hk := keeps (Rule.form .statement).parse setup s
    rw [topLevel, topLevel]
    by_cases ht : s.hasTokens
    · rw [if_pos ht, if_pos ht]
      cases ho : (Rule.form .statement).parse setup s with
      | done id s' => exact ih
      | stopped why s' =>
        rw [ho] at hk
        have hd := (State.discard_mark hk.grown).2
        have hr := (recover_kept hk.grown).2
        cases why with
        | error e =>
          dsimp only
          by_cases hc : e.classify = .resource
          · rw [if_pos hc, if_pos hc]
            exact .refl (Nat.le_refl 1)
          · rw [if_neg hc, if_neg hc]
            exact (topLevel_continues false turns).stopsShort (hd.trans hr.symm)
        | missingNode => exact .refl (Nat.zero_le 1)
        | exhausted => exact .refl (Nat.zero_le 1)
    · rw [if_neg ht, if_neg ht]
      exact .refl (Nat.zero_le 1)

end Parse

namespace Parsed

open Parse

/-- What strict mode comes to, beside what recover mode comes to: the first error alone, if there is
one, and the tree up to it, if there is a tree. -/
structure StopsShort (recovered strict : Parsed) : Prop where
  errors : strict.errors = recovered.errors.take 1
  same : recovered.errors = [] → strict = recovered
  tree : (∀ error ∈ recovered.errors, error.classify ≠ .resource) →
    strict.tree.statements <+: recovered.tree.statements ∧
      strict.tree.nodes.toList <+: recovered.tree.nodes.toList

/-- Where a header fails, strict mode has no tree, and recover mode goes on from the error. -/
theorem StopsShort.of_continues {file : String} {trivia : Array Trivia} {header : Option NodeId}
    {s : State} {ids : Array NodeId} {p : Progress} {e : Error} (h : p.Continues s ids #[e]) :
    (ofProgress file trivia header p).StopsShort { tree := { file }, errors := [e] } := by
  obtain ⟨more, hm⟩ := h.errors
  have he : p.errors.toList = e :: more := hm.symm
  refine ⟨?_, ?_, fun _ => ⟨List.nil_prefix, List.nil_prefix⟩⟩
  · rw [ofProgress, he]
    rfl
  · rw [ofProgress, he]
    simp

theorem ofProgress_stopsShort {file : String} {trivia : Array Trivia} {header : Option NodeId}
    {recovered strict : Progress} (h : recovered.StopsShort strict)
    (hr : recovered.state = none → ∃ error ∈ recovered.errors.toList, error.classify = .resource) :
    (ofProgress file trivia header recovered).StopsShort
      (ofProgress file trivia header strict) where
  errors := h.errors
  same he := by rw [h.same he]
  tree hc := by
    cases hs : recovered.state with
    | none =>
      obtain ⟨error, hm, hk⟩ := hr hs
      exact absurd hk (hc error hm)
    | some s' =>
      obtain ⟨s, hs', hn⟩ := h.nodes s' hs
      simp only [ofProgress, hs, hs']
      exact ⟨h.statements, hn⟩

theorem ofTokens_stopsShort (tokens : Tokens) (file : String) (options : Options) :
    (ofTokens tokens file options.recovering).StopsShort
      (ofTokens tokens file options.strict) := by
  have hsetup : Setup.standard file options.strict = .standard file options.recovering := rfl
  unfold ofTokens
  rw [hsetup, Options.isStrict_strict, Options.isStrict_recovering]
  dsimp only
  split
  · rename_i header s ho
    exact ofProgress_stopsShort (topLevel_stopsShort _) (topLevel_continues false _).resource
  · rename_i error s ho
    rw [if_pos rfl, if_neg Bool.false_ne_true]
    exact .of_continues (topLevel_continues false _)
  · exact ⟨rfl, fun _ => rfl, fun _ => ⟨List.prefix_refl _, List.prefix_refl _⟩⟩

/-- A source parses in strict mode as it does in recover mode up to the first error. -/
theorem ofSource_stopsShort (source file : String) (options : Options) :
    (ofSource source file options.recovering).StopsShort
      (ofSource source file options.strict) := by
  unfold ofSource
  rw [Tokens.ofSource_strict]
  cases ht : Tokens.ofSource source file options.recovering with
  | ok tokens => exact ofTokens_stopsShort tokens file options
  | error errors =>
    refine ⟨rfl, ?_, fun _ => ⟨List.prefix_refl _, List.prefix_refl _⟩⟩
    rintro rfl
    rfl

theorem StopsShort.errors_eq_nil {recovered strict : Parsed} (h : recovered.StopsShort strict) :
    strict.errors = [] ↔ recovered.errors = [] := by
  rw [h.errors, List.take_eq_nil_iff]
  simp

end Parsed

theorem Parsed.ofSource_strict_errors (source file : String) :
    (Parsed.ofSource source file { mode := .strict }).errors = [] ↔
      (Parsed.ofSource source file {}).errors = [] :=
  (ofSource_stopsShort source file {}).errors_eq_nil

theorem Tree.ofSource_ok_iff (source file : String) :
    (∃ tree, Tree.ofSource source file = .ok tree) ↔
      (Parsed.ofSource source file {}).errors = [] := by
  rw [← Parsed.ofSource_strict_errors]
  cases he : (Parsed.ofSource source file { mode := .strict }).errors with
  | nil => simp [Tree.ofSource, he]
  | cons error errors => simp [Tree.ofSource, he]

/-- A source is valid if recover mode finds no error in it, under whatever name of its file. -/
theorem isValid_iff (source file : String) :
    isValid source ↔ (Parsed.ofSource source file {}).errors = [] := by
  have h := Parsed.ofSource_alike source "<validate>" file { mode := .strict }
  rw [← Parsed.ofSource_strict_errors, ← h.errors_eq_nil, isValid, Parsed.isOk, List.isEmpty_iff]

/-- Both modes agree up to the first error, and on whether there is one. -/
theorem Parsed.ofSource_modes (source file : String) (options : Options) :
    let recovered := Parsed.ofSource source file { options with mode := .recover }
    let strict := Parsed.ofSource source file { options with mode := .strict }
    (strict.errors = [] ↔ recovered.errors = []) ∧
      (recovered.errors = [] → strict = recovered) ∧
      (∀ first rest, recovered.errors = first :: rest → strict.errors = [first]) ∧
      ((∀ error ∈ recovered.errors, error.classify ≠ .resource) →
        strict.tree.statements <+: recovered.tree.statements ∧
          strict.tree.nodes.toList <+: recovered.tree.nodes.toList) ∧
      (isValid source ↔ ∃ tree, Tree.ofSource source file = .ok tree) ∧
      (isValid source ↔ (Parsed.ofSource source file {}).errors = []) := by
  intro recovered strict
  have h : recovered.StopsShort strict := ofSource_stopsShort source file options
  have hvalid := isValid_iff source file
  refine ⟨h.errors_eq_nil, h.same, fun first rest he => ?_, h.tree, ?_, hvalid⟩
  · rw [h.errors, he]
    rfl
  · rw [hvalid, Tree.ofSource_ok_iff]

end Smaug
