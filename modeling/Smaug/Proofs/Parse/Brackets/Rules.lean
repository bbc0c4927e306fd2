import Mathlib
import Smaug.Proofs.Parse.Brackets.Basic

/-! # Rules close what they open

Every construct that opens a bracket claims the errors up to the bracket that closes it, so an end
of the input is blamed on the innermost bracket that is still open.
-/

namespace Smaug.Parse

open Grammar

/-! ## Steps at the sign that calls for them -/

section
variable {setup : Setup} {s : State}

theorem isAt_bind_nests {kind : Token.Kind} {step other : Parse α}
    (h : s.kind = kind → (step setup s).Nests id id s)
    (ho : (other setup s).Nests id id s) :
    ((isAt kind >>= fun b => if b then step else other) setup s).Nests id id s := by
  change ((if s.kind == kind then step else other) setup s).Nests id id s
  split
  · rename_i hk
    exact h (beq_iff_eq.1 hk)
  · exact ho

instance {kind : Token.Kind} [kind.Plain] {next : Token → Parse α} {other : Parse α}
    [∀ token, Balances (next token)] [Balances other] :
    Balances (isAt kind >>= fun b => if b then advance >>= next else other) where
  nests ht he := isAt_bind_nests (fun hs => advance_bind_nests ht he hs) (balances other ht he)

instance {next : Token → Parse α} {other : Parse α}
    [hn : ∀ opening, Encloses '(' opening (next opening)] [Balances other] :
    Balances (isAt .openParen >>= fun b => if b then advance >>= next else other) where
  nests {setup s} ht he := by
    refine isAt_bind_nests (fun hs => ?_) (balances other ht he)
    have hd : s.current.kind.opening? = some '(' := congrArg Token.Kind.opening? hs
    exact ((hn s.current).nests ht (he.advance (State.hasTokens_of_opening hd)).2 hd).from
      (s.openAtEnd_opening he hd)

instance : Balances externalModule := by unfold externalModule; infer_instance

instance : Balances external := by unfold external; infer_instance

instance : Balances primary where
  nests {setup s} ht he := by
    refine bind_nests (balances (look _) ht he) fun token s ho => ?_
    obtain ⟨rfl, rfl⟩ := look_done.1 ho
    generalize hk : s.current.kind = kind
    have hk : s.kind = kind := hk
    split
    · cases Text.integer? s.current.value with
      | none =>
        intro hs
        rw [State.hasTokens_of_kind hk (by decide)] at hs
        cases hs
      | some value => exact advance_bind_nests ht he hk
    · exact advance_bind_nests ht he hk
    iterate 2
      exact balances (do
        let name ← name
        push (.identifier (.single name)) name.span) ht he
    · exact balances (do refuse (← unexpected [.expression]) : Parse NodeId) ht he

instance (left : NodeId) : Balances (member left) := by unfold member; infer_instance

end

/-! ## Rules -/

class Nesting (run : Rule → Parse NodeId) : Prop where
  nests {rule : Rule} {setup : Setup} {s : State} (ht : setup.table = .standard)
    (hf : Fits s rule) (he : s.Ended) : (run rule setup s).Nests id id s

section
variable {run : Rule → Parse NodeId} [∀ rule, Keeps (run rule)] [Nesting run] {setup : Setup}
  {s : State}
set_option synthInstance.maxSize 512

instance (rule : Rule) [hr : rule.Free] : Balances (run rule) where
  nests ht he := Nesting.nests ht (hr.fits _) he

instance : Balances (value run) := inferInstanceAs (Balances (run _))

instance : Balances (typeExpression run) := inferInstanceAs (Balances (run _))

/-! ### Rules that dispatch -/

instance : Balances (operand run) where
  nests {setup s} ht he := by
    refine bind_nests (balances (look _) ht he) fun kind s hk => ?_
    obtain ⟨rfl, rfl⟩ := look_done.1 hk
    refine bind_nests (balances (given _) ht he) fun table s hg => ?_
    obtain ⟨rfl, rfl⟩ := given_done.1 hg
    rw [ht]
    cases hf : Table.standard.operand s.kind with
    | some form => exact Nesting.nests ht (fits_operand hf) he
    | none =>
      cases (Table.standard.statement s.kind).isSome with
      | true => exact balances (run (.form .statement)) ht he
      | false => exact balances (do refuse (← misplaced .expression) : Parse NodeId) ht he

instance : Balances (statement run) where
  nests {setup s} ht he := by
    refine bind_nests (balances (given _) ht he) fun table s hg => ?_
    obtain ⟨rfl, rfl⟩ := given_done.1 hg
    refine bind_nests (balances (look _) ht he) fun kind s hk => ?_
    obtain ⟨rfl, rfl⟩ := look_done.1 hk
    rw [ht]
    cases hf : Table.standard.statement s.kind with
    | some form => exact Nesting.nests ht (fits_statement hf) he
    | none => exact balances (do refuse (← misplaced .statement) : Parse NodeId) ht he

instance (allowDefault : Bool) : Balances (pattern run allowDefault) where
  nests {setup s} ht he := by
    refine nested_nests (bind_nests (balances (given _) ht he) fun table s₁ hg => ?_)
    obtain ⟨rfl, rfl⟩ := given_done.1 hg
    refine bind_nests (balances (look _) ht he) fun kind s₁ hk => ?_
    obtain ⟨rfl, rfl⟩ := look_done.1 hk
    rw [ht]
    cases hf : Table.standard.pattern s.deeper.kind with
    | some form => exact Nesting.nests ht (fits_pattern hf) he
    | none => exact balances (do refuse (← misplaced .pattern) : Parse NodeId) ht he

instance (left : NodeId) (power : Power) : Balances (run (.continuation left power)) where
  nests ht he := Nesting.nests ht trivial he

instance (power : Power) : Balances (expression run power) := by unfold expression; infer_instance

instance (left : NodeId) (power : Power) : Balances (continuation run left power) := by
  unfold continuation
  have hk (left : NodeId) : Keeps (do
      match (← given Setup.table).suffix (← look State.kind) with
      | some (next, suffix) =>
        if next.tighter power then return .again (← run (.suffix suffix left next))
        else return .finish left
      | none => return .finish left : Parse (Turn NodeId NodeId)) := by
    refine keeps_bind (given _) fun table => keeps_bind (look _) fun kind => ?_
    split <;> infer_instance
  have hb (left : NodeId) : Balances (do
      match (← given Setup.table).suffix (← look State.kind) with
      | some (next, suffix) =>
        if next.tighter power then return .again (← run (.suffix suffix left next))
        else return .finish left
      | none => return .finish left : Parse (Turn NodeId NodeId)) := by
    refine ⟨fun {setup s} ht he => ?_⟩
    refine bind_nests (balances (given _) ht he) fun table s hg => ?_
    obtain ⟨rfl, rfl⟩ := given_done.1 hg
    refine bind_nests (balances (look _) ht he) fun kind s hl => ?_
    obtain ⟨rfl, rfl⟩ := look_done.1 hl
    rw [ht]
    cases hf : Table.standard.suffix s.kind with
    | none => exact fun _ => rfl
    | some entry =>
      obtain ⟨next, suffix⟩ := entry
      dsimp only
      split
      · exact bind_nests (Nesting.nests ht hf he) fun _ _ _ _ => rfl
      · exact fun _ => rfl
  infer_instance

/-! ### Expressions -/

theorem unary_nests (ht : setup.table = .standard) (he : s.Ended)
    (hf : Table.operands s.kind = some .unary) : (unary run setup s).Nests id id s := by
  have hk : s.kind.Plain := by
    generalize s.kind = kind at hf
    cases kind <;> cases hf <;> exact ⟨rfl, rfl, by decide⟩
  exact advance_bind_nests ht he rfl

theorem binary_nests {left : NodeId} {power : Power} (ht : setup.table = .standard) (he : s.Ended)
    (hf : Table.suffixes s.kind = some (power, .binary)) :
    (binary run left power setup s).Nests id id s := by
  have hk : s.kind.Plain := by
    generalize s.kind = kind at hf
    cases kind <;> cases hf <;> exact ⟨rfl, rfl, by decide⟩
  refine bind_nests (balances (look _) ht he) fun kind s₁ hl => ?_
  obtain ⟨rfl, rfl⟩ := look_done.1 hl
  cases BinaryOp.ofKind? s₁.kind with
  | none => exact balances (do refuse (← unexpected []) : Parse NodeId) ht he
  | some op => exact advance_bind_nests ht he rfl

instance (left : NodeId) : Balances (call run left) := by unfold call; infer_instance

instance (left : NodeId) : Balances (index run left) := by unfold index; infer_instance

instance : Balances (grouping run) := by unfold grouping; infer_instance

instance (construct : String) : Balances (tuple run construct) := by unfold tuple; infer_instance

instance : Balances (array run) := by unfold array; infer_instance

instance (opening : Token) (construct : String) :
    Encloses '\x7b' opening (bracedStatements run construct opening.span) := by
  unfold bracedStatements; infer_instance

instance : Balances (block run) := by unfold block; infer_instance

/-! ### Patterns -/

instance : Balances (restPattern run) := by unfold restPattern; infer_instance

instance (allowDefault : Bool) : Balances (namedPattern run allowDefault) := by
  unfold namedPattern; infer_instance

instance : Balances (annotatedType run) := by unfold annotatedType; infer_instance

instance (allowDefault : Bool) : Balances (identifierPattern run allowDefault) := by
  unfold identifierPattern; infer_instance

instance : Balances (tuplePattern run) := by unfold tuplePattern; infer_instance

instance : Balances (enumPattern run) := by unfold enumPattern; infer_instance

instance : Balances (literalPattern run) := by unfold literalPattern; infer_instance

/-- The attribute list is asked for at a token; at the end of the input it would complain about
being empty. -/
theorem attributeList_nests (ht : setup.table = .standard) (he : s.Ended) (hs : s.hasTokens) :
    (attributeList run setup s).Nests id id s := by
  refine isAt_bind_nests (fun _ => balances (collect _) ht he) ?_
  intro hn
  rw [hs] at hn
  cases hn

instance : Balances (signatureAttributes run) where
  nests {setup s} ht he := by
    refine bind_nests (balances (look _) ht he) fun b s ho => ?_
    obtain ⟨rfl, rfl⟩ := look_done.1 ho
    split
    · rename_i hk
      simp only [Bool.or_eq_true, beq_iff_eq] at hk
      exact attributeList_nests ht he
        (hk.elim (State.hasTokens_of_kind · (by decide)) (State.hasTokens_of_kind · (by decide)))
    · exact fun _ => rfl

instance : Balances (signature run) := by unfold signature; infer_instance

/-! ### Statements -/

instance : Balances (statementOrBlock run) := by unfold statementOrBlock; infer_instance

instance : Balances (elseBranch run) := by unfold elseBranch; infer_instance

instance (start : Nat) : Balances (letVariable run start) := by unfold letVariable; infer_instance

instance : Balances (statementList run) := by unfold statementList; infer_instance

instance : Balances (moreAttributes run) := by
  have : Balances (do if ← isAt .yieldWord then attributeList run else return []) :=
    ⟨fun ht he => isAt_bind_nests
      (fun hk => attributeList_nests ht he (State.hasTokens_of_kind hk (by decide)))
      (fun _ => rfl)⟩
  unfold moreAttributes
  infer_instance

instance : Balances (yieldStatement run) := by unfold yieldStatement; infer_instance

instance (note : String) (expected : List Expected) : Balances (body run note expected) where
  nests {setup s} ht he := by
    refine bind_nests (balances (look _) ht he) fun kind s ho => ?_
    obtain ⟨rfl, rfl⟩ := look_done.1 ho
    generalize hk : s.kind = kind
    split
    · exact advance_bind_nests ht he hk
    · exact balances (do return Body.block (← run (.form .block))) ht he
    · exact balances (do refuse (← unexpected expected note) : Parse Body) ht he

instance : Balances (casePattern run) := by unfold casePattern; infer_instance

instance : Balances (matchCase run) := by unfold matchCase; infer_instance

instance (start : Nat) : Balances (letFunction run start) := by unfold letFunction; infer_instance

instance (start : Nat) : Balances (letStruct run start) := by unfold letStruct; infer_instance

instance (start : Nat) : Balances (letEnum run start) := by unfold letEnum; infer_instance

omit [Nesting run] in
theorem rangeHead_ne_error (error : Error) (s' : State) :
    rangeHead run setup s ≠ .stopped (.error error) s' := by
  rw [rangeHead_apply]
  intro h
  split at h
  · split at h
    · split at h <;> cases h
    · cases h
    · rename_i hne _
      cases h
      exact hne error rfl
  · cases h

section
variable (ht : setup.table = .standard) (he : s.Ended)
include ht he

theorem letStatement_nests (hk : s.kind = .letWord) : (letStatement run setup s).Nests id id s := by
  refine @advance_bind_nests _ _ _ _ _ _ (fun token => balances_bind (look State.kind) fun kind => ?_)
    ht he hk
  split <;> infer_instance

/-- The parenthesis of a range is passed before it is known to be one; where it is none, the parse
is back before it. -/
theorem rangeHead_bind_nests {next : Option (Span × NodeId) → Parse NodeId}
    (hs : ∀ opening pattern, Encloses '(' opening (next (some (opening.span, pattern))))
    (hn : Balances (next none)) : ((rangeHead run >>= next) setup s).Nests id id s := by
  change (Parse.bind (rangeHead run) next setup s).Nests id id s
  unfold Parse.bind
  cases hr : rangeHead run setup s with
  | done head s' =>
    obtain ⟨rfl, rfl⟩ | ⟨hk, pattern, s₁, hp, hi, rfl, rfl⟩ := rangeHead_done hr
    · exact hn.nests ht he
    · have hd : s.current.kind.opening? = some '(' := congrArg Token.Kind.opening? hk
      have he₁ := (he.advance (State.hasTokens_of_opening hd)).2
      have hb := balances (run (.pattern .any false)) ht he₁
      rw [hp] at hb
      have he₂ := he₁.grow (kept_of_done hp).toGrown
      refine ((hs s.current pattern).nests ht
        (he₂.advance (State.hasTokens_of_kind hi (by decide))).2 hd).from fun opened => ?_
      calc s.openAtEnd opened
        _ = s.advance.openAtEnd (s.current :: opened) := s.openAtEnd_opening he hd _
        _ = s₁.openAtEnd (s.current :: opened) := hb _
        _ = s₁.advance.openAtEnd (s.current :: opened) := s₁.openAtEnd_plain he₂ hi _
  | stopped why s' =>
    cases why with
    | error error => exact absurd hr (rangeHead_ne_error error s')
    | missingNode => trivial
    | exhausted => trivial

theorem eachStatement_nests (hk : s.kind = .eachWord) :
    (eachStatement run setup s).Nests id id s := by
  refine @advance_bind_nests _ _ _ _ _ _ (fun token => ⟨fun ht he => rangeHead_bind_nests ht he
    (fun opening pattern => ?_) ?_⟩) ht he hk
  · dsimp only
    infer_instance
  · dsimp only
    infer_instance

end

theorem ruleBody_nests {rule : Rule} (ht : setup.table = .standard) (hf : Fits s rule)
    (he : s.Ended) : (rule.body run setup s).Nests id id s := by
  match rule, hf with
  | .form .statement, _ => exact balances (statement run) ht he
  | .form .importStatement, hf => exact advance_bind_nests ht he hf
  | .form .doStatement, hf => exact advance_bind_nests ht he hf
  | .form .returnStatement, hf => exact advance_bind_nests ht he hf
  | .form .yieldStatement, _ => exact balances (yieldStatement run) ht he
  | .form .ifStatement, hf => exact advance_bind_nests ht he hf
  | .form .eachStatement, hf => exact eachStatement_nests ht he hf
  | .form .matchStatement, hf => exact advance_bind_nests ht he hf
  | .form .letStatement, hf => exact letStatement_nests ht he hf
  | .form .typeExpression, _ => exact balances (typeExpression run) ht he
  | .form .primary, _ => exact balances primary ht he
  | .form .unary, hf => exact unary_nests ht he hf
  | .form .grouping, _ => exact balances (grouping run) ht he
  | .form .array, _ => exact balances (array run) ht he
  | .form .block, _ => exact balances (block run) ht he
  | .form .signature, _ => exact balances (signature run) ht he
  | .expression power, _ => exact balances (expression run power) ht he
  | .continuation left power, _ => exact balances (continuation run left power) ht he
  | .suffix .binary left power, hf => exact binary_nests ht he hf
  | .suffix .call left _, _ => exact balances (call run left) ht he
  | .suffix .index left _, _ => exact balances (index run left) ht he
  | .suffix .member left _, _ => exact balances (member left) ht he
  | .tuple construct, _ => exact balances (tuple run construct) ht he
  | .pattern .any allowDefault, _ => exact balances (pattern run allowDefault) ht he
  | .pattern .rest _, _ => exact balances (restPattern run) ht he
  | .pattern .named allowDefault, _ => exact balances (namedPattern run allowDefault) ht he
  | .pattern .identifier allowDefault, _ => exact balances (identifierPattern run allowDefault) ht he
  | .pattern .tuple _, _ => exact balances (tuplePattern run) ht he
  | .pattern .enum _, _ => exact balances (enumPattern run) ht he
  | .pattern .literal _, _ => exact balances (literalPattern run) ht he

end

instance nesting_runWith (fuel : Nat) : Nesting (Rule.runWith fuel) := by
  induction fuel with
  | zero => exact ⟨fun _ _ _ => trivial⟩
  | succ fuel ih => exact ⟨fun ht hf he => ruleBody_nests ht hf he⟩

instance nesting_parse : Nesting Rule.parse :=
  ⟨fun ht hf he => (nesting_runWith _).nests ht hf he⟩

instance : Balances header := by unfold header; infer_instance

end Smaug.Parse
