import Smaug.Proofs.Parse.Production

/-! # Rules follow productions

A rule that yields a node has followed a production.  A property that every production hands on from
the rules it calls is therefore a property of every rule.
-/

namespace Smaug.Parse

open Grammar

theorem name_done {setup : Setup} {s s' : State} {n : Name} :
    name setup s = .done n s' ↔ s.current.isName ∧ n = s.name ∧ s' = s.advance := by
  unfold name State.name
  cases h : s.current.isName <;>
    simp [bind_done, look_done, advance_done, pure_done, refuse_done, and_assoc, h]

theorem path_done {setup : Setup} {s s' : State} {p : Path} (h : path setup s = .done p s') :
    PathRead s p s' := by
  simp only [path, bind_done, name_done, look_done, pure_done] at h
  obtain ⟨first, s₁, ⟨hn, rfl, rfl⟩, names, s₂, hs, _, _, ⟨rfl, rfl⟩, rfl, rfl⟩ := h
  refine .intro hn (collect_done ?_ ?_ hs)
  · intro s s' h
    simp only [bind_done, eat_done] at h
    obtain ⟨_, _, ⟨rfl, rfl⟩, h⟩ := h
    split at h
    · simp [bind_done, pure_done] at h
    · rename_i hd
      obtain ⟨-, rfl⟩ := pure_done.1 h
      have hd : s.kind ≠ .dot := by simpa using hd
      simp [State.skip, hd]
  · intro s item more s' h
    simp only [bind_done, eat_done] at h
    obtain ⟨_, _, ⟨rfl, rfl⟩, h⟩ := h
    split at h
    · rename_i hd
      have hd : s.kind = .dot := by simpa using hd
      simp only [bind_done, name_done, pure_done] at h
      obtain ⟨_, _, ⟨hn, rfl, rfl⟩, hi, rfl⟩ := h
      cases hi
      simp only [State.skip, hd, if_true] at hn ⊢
      exact .intro hd hn
    · simp [pure_done] at h

theorem externalModule_done {setup : Setup} {s s' : State} {m : Option String}
    (h : externalModule setup s = .done m s') : ExternalModule s m s' := by
  simp only [externalModule, bind_done, isAt_done] at h
  obtain ⟨_, _, ⟨rfl, rfl⟩, h⟩ := h
  split at h
  · rename_i ho
    simp only [bind_done, advance_done, inside_done, expect_done, pure_done] at h
    obtain ⟨_, _, ⟨rfl, rfl⟩, _, _, ⟨hs, rfl, rfl⟩, _, _, ⟨hc, rfl, rfl⟩, rfl, rfl⟩ := h
    exact .some (by simpa using ho) hs hc
  · rename_i ho
    obtain ⟨rfl, rfl⟩ := pure_done.1 h
    exact .none (by simpa using ho)

theorem external_done {setup : Setup} {s s' : State} {e : Option External}
    (h : external setup s = .done e s') : ExternalRead s e s' := by
  simp only [external, bind_done, isAt_done] at h
  obtain ⟨_, _, ⟨rfl, rfl⟩, h⟩ := h
  split at h
  · rename_i he
    simp only [bind_done, advance_done, look_done, pure_done] at h
    obtain ⟨_, _, ⟨rfl, rfl⟩, m, _, hm, _, _, ⟨rfl, rfl⟩, rfl, rfl⟩ := h
    exact .some (by simpa using he) (externalModule_done hm)
  · rename_i he
    obtain ⟨rfl, rfl⟩ := pure_done.1 h
    exact .none (by simpa using he)

theorem importStatement_done {R : Meaning} {maxDepth : Nat} {setup : Setup} {s s' : State}
    {id : NodeId} (hk : s.kind = .importWord) (h : importStatement setup s = .done id s') :
    Production R maxDepth (.form .importStatement) s id s' := by
  simp only [importStatement, bind_done, advance_done, pushFrom_done] at h
  obtain ⟨_, _, ⟨rfl, rfl⟩, p, s₁, hp, rfl, rfl⟩ := h
  exact .importStatement hk (path_done hp)

theorem primary_done {R : Meaning} {maxDepth : Nat} {setup : Setup} {s s' : State} {id : NodeId}
    (h : primary setup s = .done id s') : Production R maxDepth (.form .primary) s id s' := by
  simp only [primary, bind_done, look_done] at h
  obtain ⟨_, s, ⟨rfl, rfl⟩, h⟩ := h
  generalize hk : s.current.kind = kind at h
  split at h
  · cases hv : Text.integer? s.current.value with
    | none => simp [hv, bind_done, refuse_done] at h
    | some value =>
      simp only [hv, bind_done, advance_done, push_done] at h
      obtain ⟨_, _, ⟨rfl, rfl⟩, rfl, rfl⟩ := h
      exact .integer hk hv
  · simp only [bind_done, advance_done, push_done] at h
    obtain ⟨_, _, ⟨rfl, rfl⟩, rfl, rfl⟩ := h
    exact .string hk
  all_goals simp only [bind_done, name_done, push_done, refuse_done, and_false, exists_false] at h
  all_goals
    obtain ⟨_, _, ⟨hn, rfl, rfl⟩, rfl, rfl⟩ := h
    exact .identifier hn

theorem member_done {R : Meaning} {maxDepth : Nat} {power : Power} {setup : Setup} {s s' : State}
    {left id : NodeId} (hk : Table.suffixes s.kind = some (power, .member))
    (h : member left setup s = .done id s') :
    Production R maxDepth (.suffix .member left power) s id s' := by
  simp only [member, bind_done, expect_done, name_done, spanOf_done, push_done] at h
  obtain ⟨_, _, ⟨hd, rfl, rfl⟩, _, _, ⟨hn, rfl, rfl⟩, _, _, ⟨node, hl, rfl, rfl⟩, rfl, rfl⟩ := h
  simp only [State.advance_nodes] at hl
  exact .member hk hd hn hl

theorem bracedItems_done {setup : Setup} {s s' : State} {item : Parse NodeId}
    {turn : State → NodeId → Bool → State → Prop}
    (ht : ∀ {s id s'}, s.hasTokens ∧ s.kind ≠ .closeCurly → item setup s = .done id s' →
      turn s id true s')
    {ids : List NodeId} (h : bracedItems item setup s = .done ids s') :
    Collected (fun s => ¬(s.hasTokens ∧ s.kind ≠ .closeCurly)) turn s ids s' := by
  refine collect_done ?_ ?_ h
  · intro s s' h
    simp only [bind_done, look_done] at h
    obtain ⟨_, _, ⟨rfl, rfl⟩, h⟩ := h
    split at h
    · simp [bind_done, pure_done] at h
    · rename_i hc
      obtain ⟨-, rfl⟩ := pure_done.1 h
      exact ⟨by simpa using hc, rfl⟩
  · intro s item more s' h
    simp only [bind_done, look_done] at h
    obtain ⟨_, _, ⟨rfl, rfl⟩, h⟩ := h
    split at h
    · rename_i hc
      simp only [bind_done, pure_done] at h
      obtain ⟨id, s₁, h, hi, rfl⟩ := h
      cases hi
      exact ht (by simpa using hc) h
    · simp [pure_done] at h

theorem kind_of_ofKind? {kind : Token.Kind} {op : BinaryOp}
    (h : BinaryOp.ofKind? kind = some op) : op.kind = kind := by
  simpa using List.find?_some h

theorem rangeHead_done {run : Rule → Parse NodeId} [∀ rule, Keeps (run rule)] {setup : Setup}
    {s s' : State} {head : Option (Span × NodeId)} (h : rangeHead run setup s = .done head s') :
    head = none ∧ s' = s ∨ s.kind = .openParen ∧
      ∃ pattern s₁, run (.pattern .any false) setup s.advance = .done pattern s₁ ∧
        s₁.kind = .inWord ∧ head = some (s.current.span, pattern) ∧ s' = s₁.advance := by
  rw [rangeHead_apply] at h
  split at h
  · rename_i ho
    split at h
    · rename_i pattern s₁ hp
      split at h
      · rename_i hi
        cases h
        exact .inr ⟨ho, pattern, s₁, hp, hi, rfl, rfl⟩
      · cases h
        exact .inl ⟨rfl, rfl⟩
    · cases h
      exact .inl ⟨rfl, rfl⟩
    · cases h
  · cases h
    exact .inl ⟨rfl, rfl⟩

section
variable {R : Meaning} {maxDepth : Nat} {run : Rule → Parse NodeId} {setup : Setup}
  {s s' : State} {id : NodeId}
  (hr : ∀ {rule s id s'}, Fits s rule → run rule setup s = .done id s' → R rule s id s')
include hr

theorem optionally_rule_done {sign : Parse Bool} {called : State → Prop} (rule : Rule)
    (hf : ∀ s, Fits s rule)
    (hs : ∀ {s b s'}, sign setup s = .done b s' →
      (b = true ∧ called s ∧ s' = s.advance) ∨ (b = false ∧ ¬called s ∧ s' = s))
    {i : Option NodeId} (h : optionally sign (run rule) setup s = .done i s') :
    Optionally R called rule s i s' := by
  rcases optionally_done.1 h with ⟨id, s₁, hb, h, rfl⟩ | ⟨hb, rfl⟩
  · rcases hs hb with ⟨-, hc, rfl⟩ | ⟨hb, -⟩
    · exact .some hc (hr (hf _) h)
    · cases hb
  · rcases hs hb with ⟨hb, -⟩ | ⟨-, hc, rfl⟩
    · cases hb
    · exact .none hc

theorem delimited_done {close : Token.Kind} (rule : Rule) (hf : ∀ s, Fits s rule)
    {ids : List NodeId} (h : delimited close (run rule) setup s = .done ids s') :
    ∃ s₁, Elements R close rule s ids s₁ ∧ s' = s₁.advance := by
  simp only [delimited, bind_done, expectOr_done, pure_done] at h
  obtain ⟨_, s₁, hs, _, _, ⟨hc, rfl, rfl⟩, rfl, rfl⟩ := h
  refine ⟨s₁, .intro (collect_done ?_ ?_ hs) hc, rfl⟩
  · intro s s' h
    simp only [bind_done, isAt_done] at h
    obtain ⟨_, _, ⟨rfl, rfl⟩, h⟩ := h
    split at h
    · rename_i hc
      obtain ⟨-, rfl⟩ := pure_done.1 h
      exact ⟨by simpa using hc, rfl⟩
    · simp [bind_done, pure_done] at h
  · intro s item more s' h
    simp only [bind_done, isAt_done] at h
    obtain ⟨_, _, ⟨rfl, rfl⟩, h⟩ := h
    split at h
    · simp [pure_done] at h
    · rename_i hc
      simp only [bind_done, eat_done, pure_done] at h
      obtain ⟨id, s₁, h, _, _, ⟨rfl, rfl⟩, hi, rfl⟩ := h
      cases hi
      exact .intro (by simpa using hc) (hr (hf _) h)

theorem bracedStatements_done {construct : String} {opening : Span} {ids : List NodeId}
    (h : bracedStatements run construct opening setup s = .done ids s') :
    ∃ s₁, BracedStatements R s ids s₁ ∧ s₁.kind = .closeCurly ∧ s' = s₁.advance := by
  simp only [bracedStatements, inside_done, bind_done, expect_done, pure_done] at h
  obtain ⟨_, s₁, hs, _, _, ⟨hc, rfl, rfl⟩, rfl, rfl⟩ := h
  exact ⟨s₁, bracedItems_done (fun hk h => .intro hk (hr trivial h)) hs, hc, rfl⟩

theorem letVariable_done {start : Nat} (h : letVariable run start setup s = .done id s') :
    LetVariable R start s id s' := by
  simp only [letVariable, value, bind_done, expect_done, pushFrom_done] at h
  obtain ⟨_, s₁, hp, _, _, ⟨he, rfl, rfl⟩, _, s₂, hv, rfl, rfl⟩ := h
  exact .intro (hr trivial hp) he (hr trivial hv)

theorem statementOrBlock_done (h : statementOrBlock run setup s = .done id s') :
    StatementOrBlock R s id s' := by
  simp only [statementOrBlock, bind_done, isAt_done] at h
  obtain ⟨_, _, ⟨rfl, rfl⟩, h⟩ := h
  split at h
  · rename_i ho
    exact .block (by simpa using ho) (hr trivial h)
  · rename_i ho
    exact .statement (by simpa using ho) (hr trivial h)

theorem elseBranch_done {i : Option NodeId} (h : elseBranch run setup s = .done i s') :
    Optionally R (·.current.isWord "else") (.expression .lowest) s i s' := by
  refine optionally_rule_done hr (.expression .lowest) (fun _ => trivial) ?_ h
  intro s b s' h
  obtain ⟨rfl, rfl⟩ := eatWord_done.1 h
  cases s.current.isWord "else" <;> simp

theorem optionally_eat_done {kind : Token.Kind} (rule : Rule) (hf : ∀ s, Fits s rule)
    {i : Option NodeId} (h : optionally (eat kind) (run rule) setup s = .done i s') :
    Optionally R (·.kind = kind) rule s i s' := by
  refine optionally_rule_done hr rule hf ?_ h
  intro s b s' h
  obtain ⟨rfl, rfl⟩ := eat_done.1 h
  by_cases hk : s.kind = kind <;> simp [State.skip, hk]

theorem body_done {note : String} {expected : List Expected} {b : Body}
    (h : body run note expected setup s = .done b s') : BodyRead R s b s' := by
  simp only [body, value, bind_done, look_done] at h
  obtain ⟨kind, s, ⟨hk, rfl⟩, h⟩ := h
  split at h
  · simp only [bind_done, advance_done, pure_done] at h
    obtain ⟨_, _, ⟨rfl, rfl⟩, _, _, hv, rfl, rfl⟩ := h
    exact .value hk.symm (hr trivial hv)
  · simp only [bind_done, pure_done] at h
    obtain ⟨_, _, hb, rfl, rfl⟩ := h
    exact .block hk.symm (hr trivial hb)
  · simp [bind_done, refuse_done] at h

theorem attributeList_done {ids : List NodeId} (h : attributeList run setup s = .done ids s') :
    AttributeList R s ids s' := by
  simp only [attributeList, bind_done, isAt_done] at h
  obtain ⟨_, _, ⟨rfl, rfl⟩, h⟩ := h
  split at h
  · rename_i hy
    refine .intro (by simpa using hy) (collect_done ?_ ?_ h)
    · intro s s' h
      simp only [bind_done, isAt_done] at h
      obtain ⟨_, _, ⟨rfl, rfl⟩, h⟩ := h
      split at h
      · simp [bind_done, pure_done] at h
      · rename_i hy
        obtain ⟨-, rfl⟩ := pure_done.1 h
        exact ⟨by simpa using hy, rfl⟩
    · intro s item more s' h
      simp only [bind_done, isAt_done] at h
      obtain ⟨_, _, ⟨rfl, rfl⟩, h⟩ := h
      split at h
      · rename_i hy
        simp only [typeExpression, bind_done, advance_done, pushFrom_done, eat_done, pure_done]
          at h
        obtain ⟨_, _, ⟨rfl, rfl⟩, _, s₁, ht, _, _, ⟨rfl, rfl⟩, _, _, ⟨rfl, rfl⟩, hi, rfl⟩ := h
        cases hi
        exact .intro (by simpa using hy) (hr trivial ht) rfl
      · simp [pure_done] at h
  · simp [bind_done, refuse_done] at h

theorem moreAttributes_done {ids : List NodeId} (h : moreAttributes run setup s = .done ids s') :
    MoreAttributes R s ids s' := by
  simp only [moreAttributes, bind_done, eat_done] at h
  obtain ⟨_, _, ⟨rfl, rfl⟩, h⟩ := h
  split at h
  · rename_i hc
    have hc : s.kind = .comma := by simpa using hc
    simp only [State.skip, hc, if_true, bind_done, isAt_done] at h
    obtain ⟨_, _, ⟨rfl, rfl⟩, h⟩ := h
    split at h
    · exact .list hc (attributeList_done hr h)
    · rename_i hy
      obtain ⟨rfl, rfl⟩ := pure_done.1 h
      exact .comma hc (by simpa using hy)
  · rename_i hc
    have hc : s.kind ≠ .comma := by simpa using hc
    obtain ⟨rfl, rfl⟩ := pure_done.1 h
    simpa [State.skip, hc] using MoreAttributes.none hc

theorem signatureAttributes_done {ids : List NodeId}
    (h : signatureAttributes run setup s = .done ids s') : SignatureAttributes R s ids s' := by
  simp only [signatureAttributes, bind_done, look_done] at h
  obtain ⟨_, _, ⟨rfl, rfl⟩, h⟩ := h
  split at h
  · exact .list (attributeList_done hr h)
  · rename_i hk
    obtain ⟨rfl, rfl⟩ := pure_done.1 h
    simp only [Bool.or_eq_true, beq_iff_eq, not_or] at hk
    exact .none hk.2 hk.1

theorem statementList_done (h : statementList run setup s = .done id s') :
    StatementList R s id s' := by
  simp only [statementList, bind_done, look_done, eat_done] at h
  obtain ⟨_, s, ⟨rfl, rfl⟩, _, _, ⟨rfl, rfl⟩, h⟩ := h
  split at h
  · rename_i hc
    have hc : s.kind = .colon := by simpa using hc
    simp only [State.skip, hc, if_true, bind_done, pushFrom_done] at h
    obtain ⟨ids, s₁, hs, rfl, rfl⟩ := h
    exact .colon hc (bracedItems_done (fun hk h => .intro hk (hr trivial h)) hs)
  · rename_i hc
    have hc : s.kind ≠ .colon := by simpa using hc
    simp only [State.skip, hc, if_false, bind_done, expect_done, pushFrom_done] at h
    obtain ⟨_, _, ⟨ho, rfl, rfl⟩, ids, _, hs, rfl, rfl⟩ := h
    obtain ⟨s₁, hs', hc, rfl⟩ := bracedStatements_done hr hs
    exact .braced ho hs' hc

theorem casePattern_done {p : CasePattern} (h : casePattern run setup s = .done p s') :
    CasePatternRead R s p s' := by
  simp only [casePattern, bind_done, look_done, eatWord_done] at h
  obtain ⟨_, s, ⟨rfl, rfl⟩, _, _, ⟨rfl, rfl⟩, h⟩ := h
  cases hd : s.current.isWord "default" with
  | true =>
    simp only [hd, if_true, pure_done] at h
    obtain ⟨rfl, rfl⟩ := h
    exact .default hd
  | false =>
    simp only [hd, Bool.false_eq_true, if_false, bind_done, pure_done] at h
    obtain ⟨_, _, h, rfl, rfl⟩ := h
    exact .pattern (by simpa using hd) (hr trivial h)

theorem matchCase_done (h : matchCase run setup s = .done id s') : MatchCase R s id true s' := by
  simp only [matchCase, bind_done, expect_done, pushFrom_done] at h
  obtain ⟨_, _, ⟨hc, rfl, rfl⟩, _, s₁, hp, _, s₂, hb, rfl, rfl⟩ := h
  exact .intro hc (casePattern_done hr hp) (body_done hr hb)

theorem unary_done (hk : Table.operands s.kind = some .unary)
    (h : unary run setup s = .done id s') : Production R maxDepth (.form .unary) s id s' := by
  simp only [unary, bind_done, advance_done, spanOf_done, push_done] at h
  obtain ⟨_, _, ⟨rfl, rfl⟩, _, s₁, ho, _, _, ⟨node, hn, rfl, rfl⟩, rfl, rfl⟩ := h
  exact .unary hk (hr trivial ho) hn

theorem grouping_done (h : grouping run setup s = .done id s') :
    Production R maxDepth (.form .grouping) s id s' := by
  simp only [grouping, value, bind_done, expect_done, eat_done] at h
  obtain ⟨_, _, ⟨ho, rfl, rfl⟩, _, _, ⟨rfl, rfl⟩, h⟩ := h
  split at h
  · rename_i hc
    have hc : s.advance.kind = .closeParen := by simpa using hc
    simp only [State.skip, hc, if_true, pushFrom_done] at h
    obtain ⟨rfl, rfl⟩ := h
    exact .emptyTuple ho hc
  · rename_i hc
    have hc : s.advance.kind ≠ .closeParen := by simpa using hc
    simp only [State.skip, hc, if_false, bind_done, inside_done, eat_done] at h
    obtain ⟨first, s₁, hf, _, _, ⟨rfl, rfl⟩, h⟩ := h
    have hf := hr (by trivial) hf
    split at h
    · rename_i hc
      have hc : s₁.kind = .closeParen := by simpa using hc
      simp only [hc, if_true, pushFrom_done] at h
      obtain ⟨rfl, rfl⟩ := h
      exact .paren ho hf hc
    · rename_i hc
      have hc : s₁.kind ≠ .closeParen := by simpa using hc
      simp only [hc, if_false, bind_done, inside_done, expectOr_done, pushFrom_done] at h
      obtain ⟨_, _, ⟨hc, rfl, rfl⟩, more, _, hd, rfl, rfl⟩ := h
      obtain ⟨s₂, hs, rfl⟩ := delimited_done hr (.expression .lowest) (fun _ => trivial) hd
      exact .longTuple ho hf hc hs

theorem tuple_done {construct : String} (h : tuple run construct setup s = .done id s') :
    Production R maxDepth (.tuple construct) s id s' := by
  simp only [tuple, value, bind_done, expect_done, inside_done, pushFrom_done] at h
  obtain ⟨_, _, ⟨ho, rfl, rfl⟩, elements, _, hd, rfl, rfl⟩ := h
  obtain ⟨s₁, hs, rfl⟩ := delimited_done hr (.expression .lowest) (fun _ => trivial) hd
  exact .tuple ho hs

theorem array_done (h : array run setup s = .done id s') :
    Production R maxDepth (.form .array) s id s' := by
  simp only [array, value, bind_done, expect_done, inside_done, pushFrom_done] at h
  obtain ⟨_, _, ⟨ho, rfl, rfl⟩, elements, _, hd, rfl, rfl⟩ := h
  obtain ⟨s₁, hs, rfl⟩ := delimited_done hr (.expression .lowest) (fun _ => trivial) hd
  exact .array ho hs

theorem block_done (h : block run setup s = .done id s') :
    Production R maxDepth (.form .block) s id s' := by
  simp only [block, bind_done, expect_done, pushFrom_done] at h
  obtain ⟨_, _, ⟨ho, rfl, rfl⟩, statements, _, hb, rfl, rfl⟩ := h
  obtain ⟨s₁, hs, hc, rfl⟩ := bracedStatements_done hr hb
  exact .block ho hs hc

theorem operand_done (ht : setup.table = .standard) (h : operand run setup s = .done id s') :
    Operand R s id s' := by
  simp only [operand, bind_done, look_done, given_done, ht] at h
  obtain ⟨_, _, ⟨rfl, rfl⟩, _, s, ⟨rfl, rfl⟩, h⟩ := h
  cases hf : Table.standard.operand s.kind with
  | some form =>
    simp only [hf] at h
    exact .form hf (hr (fits_operand hf) h)
  | none =>
    cases hs : (Table.standard.statement s.kind).isSome with
    | true =>
      simp only [hf, hs, if_true] at h
      exact .statement hf hs (hr trivial h)
    | false => simp [hf, hs, bind_done, refuse_done] at h

theorem expression_done {power : Power} (ht : setup.table = .standard)
    (h : expression run power setup s = .done id s') :
    Production R setup.maxDepth (.expression power) s id s' := by
  simp only [expression, nested_done, bind_done] at h
  obtain ⟨hd, _, ⟨left, s₁, ho, hc⟩, rfl⟩ := h
  exact .expression hd (operand_done hr ht ho) (hr trivial hc)

theorem suffixes_done {power : Power} (ht : setup.table = .standard) {turns : Nat} {left : NodeId}
    (h : iterate (fun left => do
      match (← given Setup.table).suffix (← look State.kind) with
      | some (next, suffix) =>
        if next.tighter power then return .again (← run (.suffix suffix left next))
        else return .finish left
      | none => return .finish left) turns left setup s = .done id s') :
    Suffixes R power s left id s' := by
  induction turns generalizing left s with
  | zero => simp [iterate, stop] at h
  | succ turns ih =>
    obtain ⟨result, s₁, hs, hrest⟩ := bind_done.1 h
    simp only [bind_done, look_done, given_done, ht] at hs
    obtain ⟨_, _, ⟨rfl, rfl⟩, _, s, ⟨rfl, rfl⟩, hs⟩ := hs
    cases hn : Table.standard.suffix s.kind with
    | none =>
      simp only [hn, pure_done] at hs
      obtain ⟨rfl, rfl⟩ := hs
      obtain ⟨rfl, rfl⟩ := pure_done.1 hrest
      refine .stop fun next suffix h => ?_
      cases hn.symm.trans h
    | some entry =>
      obtain ⟨next, suffix⟩ := entry
      simp only [hn] at hs
      split at hs
      · rename_i hp
        simp only [bind_done, pure_done] at hs
        obtain ⟨middle, _, hs, rfl, rfl⟩ := hs
        exact .take hn hp (hr hn hs) (ih hrest)
      · rename_i hp
        obtain ⟨rfl, rfl⟩ := pure_done.1 hs
        obtain ⟨rfl, rfl⟩ := pure_done.1 hrest
        refine .stop fun next' suffix' h => ?_
        cases hn.symm.trans h
        exact hp

theorem continuation_done {power : Power} {left : NodeId} (ht : setup.table = .standard)
    (h : continuation run left power setup s = .done id s') :
    Production R setup.maxDepth (.continuation left power) s id s' := by
  obtain ⟨turns, s₁, hn, h⟩ := bind_done.1 h
  obtain ⟨-, rfl⟩ := look_done.1 hn
  exact .continuation (suffixes_done hr ht h)

theorem binary_done {power : Power} {left : NodeId}
    (hk : Table.suffixes s.kind = some (power, .binary))
    (h : binary run left power setup s = .done id s') :
    Production R maxDepth (.suffix .binary left power) s id s' := by
  simp only [binary, bind_done, look_done] at h
  obtain ⟨_, s, ⟨rfl, rfl⟩, h⟩ := h
  cases ho : BinaryOp.ofKind? s.kind with
  | none => simp [ho, bind_done, refuse_done] at h
  | some op =>
    simp only [ho, bind_done, advance_done, spanOf_done, push_done] at h
    obtain ⟨_, _, ⟨rfl, rfl⟩, right, s₁, hv, _, _, ⟨leftNode, hl, rfl, rfl⟩, _, _,
      ⟨rightNode, hn, rfl, rfl⟩, rfl, rfl⟩ := h
    exact .binary hk (kind_of_ofKind? ho) (hr trivial hv) hl hn

theorem call_done {power : Power} {left : NodeId}
    (hk : Table.suffixes s.kind = some (power, .call))
    (h : call run left setup s = .done id s') :
    Production R maxDepth (.suffix .call left power) s id s' := by
  simp only [call, bind_done, spanOf_done, push_done] at h
  obtain ⟨arguments, s₁, ha, _, _, ⟨leftNode, hl, rfl, rfl⟩, _, _, ⟨node, hn, rfl, rfl⟩, rfl,
    rfl⟩ := h
  exact .call hk (hr trivial ha) hl hn

theorem index_done {power : Power} {left : NodeId}
    (hk : Table.suffixes s.kind = some (power, .index))
    (h : index run left setup s = .done id s') :
    Production R maxDepth (.suffix .index left power) s id s' := by
  simp only [index, bind_done, spanOf_done, push_done] at h
  obtain ⟨indices, s₁, hi, _, _, ⟨leftNode, hl, rfl, rfl⟩, _, _, ⟨node, hn, rfl, rfl⟩, rfl,
    rfl⟩ := h
  exact .index hk (hr trivial hi) hl hn

/-! ### Patterns -/

theorem pattern_done {allowDefault : Bool} (ht : setup.table = .standard)
    (h : pattern run allowDefault setup s = .done id s') :
    Production R setup.maxDepth (.pattern .any allowDefault) s id s' := by
  simp only [pattern, nested_done, bind_done, given_done, look_done, ht] at h
  obtain ⟨hd, s₁, ⟨_, _, ⟨rfl, rfl⟩, _, _, ⟨rfl, rfl⟩, h⟩, rfl⟩ := h
  cases hf : Table.standard.pattern s.deeper.kind with
  | none => simp [hf, bind_done, refuse_done] at h
  | some form =>
    simp only [hf] at h
    exact .pattern hd hf (hr (fits_pattern hf) h)

theorem restPattern_done {allowDefault : Bool} (h : restPattern run setup s = .done id s') :
    Production R maxDepth (.pattern .rest allowDefault) s id s' := by
  simp only [restPattern, bind_done, expect_done, pushFrom_done] at h
  obtain ⟨_, _, ⟨hk, rfl, rfl⟩, binder, s₁, hb, rfl, rfl⟩ := h
  exact .restPattern hk (hr trivial hb)

theorem namedPattern_done {allowDefault : Bool}
    (h : namedPattern run allowDefault setup s = .done id s') :
    Production R maxDepth (.pattern .named allowDefault) s id s' := by
  simp only [namedPattern, bind_done, look_done] at h
  obtain ⟨_, s, ⟨rfl, rfl⟩, h⟩ := h
  split at h
  · rename_i hp
    exact .namedEnum hp (hr trivial h)
  · rename_i hp
    exact .namedIdentifier hp (hr trivial h)

theorem annotatedType_done {i : Option NodeId} (h : annotatedType run setup s = .done i s') :
    Optionally R (·.kind = .colon) (.expression .compare) s i s' :=
  optionally_eat_done hr (.expression .compare) (fun _ => trivial) h

theorem identifierPattern_done {allowDefault : Bool}
    (h : identifierPattern run allowDefault setup s = .done id s') :
    Production R maxDepth (.pattern .identifier allowDefault) s id s' := by
  simp only [identifierPattern, bind_done, name_done, pushFrom_done] at h
  obtain ⟨_, _, ⟨hn, rfl, rfl⟩, type, s₁, ht, defaultValue, s₂, hd, rfl, rfl⟩ := h
  refine .identifierPattern hn (annotatedType_done hr ht)
    (optionally_rule_done hr (.expression .lowest) (fun _ => trivial) ?_ hd)
  intro s b s' h
  cases allowDefault with
  | true =>
    obtain ⟨rfl, rfl⟩ := eat_done.1 h
    by_cases hk : s.kind = .assignment <;> simp [State.skip, hk]
  | false =>
    obtain ⟨rfl, rfl⟩ := pure_done.1 h
    simp

theorem tuplePattern_done {allowDefault : Bool} (h : tuplePattern run setup s = .done id s') :
    Production R maxDepth (.pattern .tuple allowDefault) s id s' := by
  simp only [tuplePattern, bind_done, expect_done, inside_done, pushFrom_done] at h
  obtain ⟨_, _, ⟨ho, rfl, rfl⟩, elements, _, hd, rfl, rfl⟩ := h
  obtain ⟨s₁, hs, rfl⟩ := delimited_done hr (.pattern .any true) (fun _ => trivial) hd
  exact .tuplePattern ho hs

theorem enumPattern_done {allowDefault : Bool} (h : enumPattern run setup s = .done id s') :
    Production R maxDepth (.pattern .enum allowDefault) s id s' := by
  simp only [enumPattern, bind_done, name_done, pushFrom_done] at h
  obtain ⟨_, _, ⟨hn, rfl, rfl⟩, arguments, s₁, ha, rfl, rfl⟩ := h
  exact .enumPattern hn (hr trivial ha)

theorem literalPattern_done {allowDefault : Bool} (hk : Table.patterns s.kind = some .literal)
    (h : literalPattern run setup s = .done id s') :
    Production R maxDepth (.pattern .literal allowDefault) s id s' := by
  simp only [literalPattern, bind_done, spanOf_done, push_done] at h
  obtain ⟨literal, s₁, hl, _, _, ⟨node, hn, rfl, rfl⟩, rfl, rfl⟩ := h
  exact .literalPattern hk (hr trivial hl) hn

theorem signature_done (h : signature run setup s = .done id s') :
    Production R maxDepth (.form .signature) s id s' := by
  simp only [signature, bind_done, look_done, pushFrom_done] at h
  obtain ⟨_, s, ⟨rfl, rfl⟩, arguments, s₁, ha, returnType, s₂, ht, attributes, s₃, hs, rfl,
    rfl⟩ := h
  exact .signature (hr trivial ha) (annotatedType_done hr ht) (signatureAttributes_done hr hs)

/-! ### Statements -/

theorem statement_done (ht : setup.table = .standard) (h : statement run setup s = .done id s') :
    Production R maxDepth (.form .statement) s id s' := by
  simp only [statement, bind_done, given_done, look_done, ht] at h
  obtain ⟨_, _, ⟨rfl, rfl⟩, _, s, ⟨rfl, rfl⟩, h⟩ := h
  cases hf : Table.standard.statement s.kind with
  | none => simp [hf, bind_done, refuse_done] at h
  | some form =>
    simp only [hf] at h
    exact .statement hf (hr (fits_statement hf) h)

theorem doStatement_done (hk : s.kind = .doWord) (h : doStatement run setup s = .done id s') :
    Production R maxDepth (.form .doStatement) s id s' := by
  simp only [doStatement, value, bind_done, advance_done, eat_done] at h
  obtain ⟨_, _, ⟨rfl, rfl⟩, _, _, ⟨rfl, rfl⟩, h⟩ := h
  by_cases hc : s.advance.kind = .caseWord
  · simp only [State.skip, hc, beq_self_eq_true, if_true, bind_done, pushFrom_done] at h
    obtain ⟨value, s₁, hv, rfl, rfl⟩ := h
    exact .retryCase hk hc (hr trivial hv)
  · simp only [State.skip, hc, beq_iff_eq, if_false, bind_done, pushFrom_done] at h
    obtain ⟨value, s₁, hv, rfl, rfl⟩ := h
    exact .doStatement hk hc (hr trivial hv)

theorem returnStatement_done (hk : s.kind = .returnWord)
    (h : returnStatement run setup s = .done id s') :
    Production R maxDepth (.form .returnStatement) s id s' := by
  simp only [returnStatement, value, bind_done, advance_done, pushFrom_done] at h
  obtain ⟨_, _, ⟨rfl, rfl⟩, value, s₁, hv, rfl, rfl⟩ := h
  exact .returnStatement hk (hr trivial hv)

theorem yieldStatement_done (ht : setup.table = .standard)
    (h : yieldStatement run setup s = .done id s') :
    Production R maxDepth (.form .yieldStatement) s id s' := by
  simp only [yieldStatement, typeExpression, bind_done, expect_done, look_done, given_done, ht]
    at h
  obtain ⟨_, _, ⟨hk, rfl, rfl⟩, operand, _, ho, _, _, ⟨rfl, rfl⟩, _, s₁, ⟨rfl, rfl⟩, h⟩ := h
  have ho := hr (by trivial) ho
  split at h
  · rename_i hc
    simp only [bind_done, pushFrom_done] at h
    obtain ⟨_, _, ⟨rfl, rfl⟩, more, s₂, hm, body, s₃, hl, rfl, rfl⟩ := h
    exact .batchAttributes hk ho hc rfl (moreAttributes_done hr hm) (statementList_done hr hl)
  · rename_i hc
    simp only [bind_done, pushFrom_done] at h
    obtain ⟨value, s₂, hv, rfl, rfl⟩ := h
    exact .yieldStatement hk ho (by simpa using hc) (hr trivial hv)

theorem ifStatement_done (hk : s.kind = .ifWord) (h : ifStatement run setup s = .done id s') :
    Production R maxDepth (.form .ifStatement) s id s' := by
  simp only [ifStatement, value, bind_done, advance_done, isAt_done] at h
  obtain ⟨_, _, ⟨rfl, rfl⟩, _, _, ⟨rfl, rfl⟩, h⟩ := h
  by_cases hl : s.advance.kind = .letWord
  · simp only [hl, beq_self_eq_true, if_true, bind_done, advance_done, pushFrom_done] at h
    obtain ⟨_, _, ⟨rfl, rfl⟩, binding, s₁, hb, thenBranch, s₂, ht, elseBranch, s₃, he, rfl,
      rfl⟩ := h
    exact .ifLet hk hl (letVariable_done hr hb) (statementOrBlock_done hr ht)
      (elseBranch_done hr he)
  · simp only [hl, beq_iff_eq, if_false, bind_done, pushFrom_done] at h
    obtain ⟨condition, s₁, hc, thenBranch, s₂, ht, elseBranch, s₃, he, rfl, rfl⟩ := h
    exact .ifStatement hk hl (hr trivial hc) (hr trivial ht) (elseBranch_done hr he)

theorem eachStatement_done [∀ rule, Keeps (run rule)] (hk : s.kind = .eachWord)
    (h : eachStatement run setup s = .done id s') :
    Production R maxDepth (.form .eachStatement) s id s' := by
  simp only [eachStatement, value, bind_done, advance_done] at h
  obtain ⟨_, _, ⟨rfl, rfl⟩, head, s₀, hh, h⟩ := h
  rcases rangeHead_done hh with ⟨rfl, rfl⟩ | ⟨ho, pattern, s₁, hp, hi, rfl, rfl⟩
  · simp only [bind_done, look_done, pushFrom_done] at h
    obtain ⟨_, _, ⟨rfl, rfl⟩, binding, s₁, hb, body, s₂, ht, rfl, rfl⟩ := h
    exact .each hk (letVariable_done hr hb) (statementOrBlock_done hr ht)
  · simp only [bind_done, inside_done, expect_done, pure_done, pushFrom_done] at h
    obtain ⟨_, _, ⟨range, s₂, hv, _, _, ⟨hc, rfl, rfl⟩, rfl, rfl⟩, body, s₃, hb, rfl, rfl⟩ := h
    exact .eachRange hk ho (hr trivial hp) hi (hr trivial hv) hc (hr trivial hb)

theorem matchStatement_done (hk : s.kind = .matchWord)
    (h : matchStatement run setup s = .done id s') :
    Production R maxDepth (.form .matchStatement) s id s' := by
  simp only [matchStatement, bind_done, advance_done, expect_done, inside_done, expectOr_done,
    pure_done, pushFrom_done] at h
  obtain ⟨_, _, ⟨rfl, rfl⟩, scrutinee, s₁, hs, _, _, ⟨ho, rfl, rfl⟩, cases, _,
    ⟨_, s₂, hcs, _, _, ⟨hc, rfl, rfl⟩, rfl, rfl⟩, rfl, rfl⟩ := h
  refine .matchStatement hk (hr trivial hs) ho (collect_done ?_ ?_ hcs) hc
  · intro s s' h
    simp only [bind_done, isAt_done] at h
    obtain ⟨_, _, ⟨rfl, rfl⟩, h⟩ := h
    split at h
    · simp [bind_done, pure_done] at h
    · rename_i hc
      obtain ⟨-, rfl⟩ := pure_done.1 h
      exact ⟨by simpa using hc, rfl⟩
  · intro s item more s' h
    simp only [bind_done, isAt_done] at h
    obtain ⟨_, _, ⟨rfl, rfl⟩, h⟩ := h
    split at h
    · simp only [bind_done, pure_done] at h
      obtain ⟨_, _, h, hi, rfl⟩ := h
      cases hi
      exact matchCase_done hr h
    · simp [pure_done] at h

theorem letFunction_done (hk : s.kind = .letWord)
    (h : letFunction run s.current.span.start setup s.advance = .done id s') :
    Production R maxDepth (.form .letStatement) s id s' := by
  simp only [letFunction, bind_done, name_done, pushFrom_done] at h
  obtain ⟨_, _, ⟨hn, rfl, rfl⟩, signature, s₁, hs, body, s₂, hb, rfl, rfl⟩ := h
  exact .letFunction hk hn (hr trivial hs) (body_done hr hb)

theorem letStruct_done (hk : s.kind = .letWord)
    (h : letStruct run s.current.span.start setup s.advance = .done id s') :
    Production R maxDepth (.form .letStatement) s id s' := by
  simp only [letStruct, bind_done, expect_done, pushFrom_done] at h
  obtain ⟨_, _, ⟨hs, rfl, rfl⟩, pattern, s₁, hp, rfl, rfl⟩ := h
  exact .letStruct hk hs (hr trivial hp)

theorem letEnum_done (hk : s.kind = .letWord)
    (h : letEnum run s.current.span.start setup s.advance = .done id s') :
    Production R maxDepth (.form .letStatement) s id s' := by
  simp only [letEnum, bind_done, expect_done, name_done, expectOr_done, inside_done, pure_done,
    pushFrom_done] at h
  obtain ⟨_, _, ⟨he, rfl, rfl⟩, _, _, ⟨hn, rfl, rfl⟩, module, s₁, hx, _, _, ⟨ho, rfl, rfl⟩,
    variants, _, ⟨_, s₂, hs, _, _, ⟨hc, rfl, rfl⟩, rfl, rfl⟩, rfl, rfl⟩ := h
  refine .letEnum hk he hn (external_done hx) ho (bracedItems_done ?_ hs) hc
  intro s id s' hc h
  simp only [bind_done, eat_done, pure_done] at h
  obtain ⟨_, s₁, h, _, _, ⟨rfl, rfl⟩, rfl, rfl⟩ := h
  exact .intro hc (hr trivial h)

theorem letStatement_done (hk : s.kind = .letWord)
    (h : letStatement run setup s = .done id s') :
    Production R maxDepth (.form .letStatement) s id s' := by
  simp only [letStatement, bind_done, advance_done, look_done] at h
  obtain ⟨_, _, ⟨rfl, rfl⟩, kind, _, ⟨hn, rfl⟩, h⟩ := h
  have named {start} (h : (do
      if (← look (·.peek 1)) = .openParen then letFunction run start
      else letVariable run start : Parse NodeId) setup s.advance = .done id s') :
      letFunction run start setup s.advance = .done id s' ∨
        letVariable run start setup s.advance = .done id s' := by
    simp only [bind_done, look_done] at h
    obtain ⟨_, _, ⟨rfl, rfl⟩, h⟩ := h
    split at h
    · exact .inl h
    · exact .inr h
  split at h
  · exact letStruct_done hr hk h
  · exact letEnum_done hr hk h
  iterate 2
    rcases named h with h | h
    · exact letFunction_done hr hk h
    · exact .letVariable hk (letVariable_done hr h)
  · exact .letVariable hk (letVariable_done hr h)

/-- What a rule does is one of its productions, over the rules it calls. -/
theorem ruleBody_done [∀ rule, Keeps (run rule)] (ht : setup.table = .standard) {rule : Rule}
    (hf : Fits s rule) (h : rule.body run setup s = .done id s') :
    Production R setup.maxDepth rule s id s' := by
  match rule, hf with
  | .form .statement, _ => exact statement_done hr ht h
  | .form .importStatement, hf => exact importStatement_done hf h
  | .form .doStatement, hf => exact doStatement_done hr hf h
  | .form .returnStatement, hf => exact returnStatement_done hr hf h
  | .form .yieldStatement, _ => exact yieldStatement_done hr ht h
  | .form .ifStatement, hf => exact ifStatement_done hr hf h
  | .form .eachStatement, hf => exact eachStatement_done hr hf h
  | .form .matchStatement, hf => exact matchStatement_done hr hf h
  | .form .letStatement, hf => exact letStatement_done hr hf h
  | .form .typeExpression, _ => exact .typeExpression (hr trivial h)
  | .form .primary, _ => exact primary_done h
  | .form .unary, hf => exact unary_done hr hf h
  | .form .grouping, _ => exact grouping_done hr h
  | .form .array, _ => exact array_done hr h
  | .form .block, _ => exact block_done hr h
  | .form .signature, _ => exact signature_done hr h
  | .expression _, _ => exact expression_done hr ht h
  | .continuation _ _, _ => exact continuation_done hr ht h
  | .suffix .binary _ _, hf => exact binary_done hr hf h
  | .suffix .call _ _, hf => exact call_done hr hf h
  | .suffix .index _ _, hf => exact index_done hr hf h
  | .suffix .member _ _, hf => exact member_done hf h
  | .tuple _, _ => exact tuple_done hr h
  | .pattern .any _, _ => exact pattern_done hr ht h
  | .pattern .rest _, _ => exact restPattern_done hr h
  | .pattern .named _, _ => exact namedPattern_done hr h
  | .pattern .identifier _, _ => exact identifierPattern_done hr h
  | .pattern .tuple _, _ => exact tuplePattern_done hr h
  | .pattern .enum _, _ => exact enumPattern_done hr h
  | .pattern .literal _, hf => exact literalPattern_done hr hf h

end

section
variable {R : Meaning} {setup : Setup}

theorem runWith_done (ht : setup.table = .standard)
    (hR : ∀ {rule s id s'}, Production R setup.maxDepth rule s id s' → R rule s id s')
    {fuel : Nat} {rule : Rule} {s s' : State} {id : NodeId} (hf : Fits s rule)
    (h : Rule.runWith fuel rule setup s = .done id s') : R rule s id s' := by
  induction fuel generalizing rule s id s' with
  | zero => cases h
  | succ fuel ih => exact hR (ruleBody_done ih ht hf h)

theorem runWith_done_kept (ht : setup.table = .standard)
    (hR : ∀ {rule s id s'}, Production (fun rule s id s' => Kept s s' ∧ R rule s id s')
      setup.maxDepth rule s id s' → R rule s id s')
    {fuel : Nat} {rule : Rule} {s s' : State} {id : NodeId} (hf : Fits s rule)
    (h : Rule.runWith fuel rule setup s = .done id s') : Kept s s' ∧ R rule s id s' := by
  induction fuel generalizing rule s id s' with
  | zero => cases h
  | succ fuel ih =>
    have hk := keeps (Rule.runWith (fuel + 1) rule) setup s
    rw [h] at hk
    exact ⟨hk, hR (ruleBody_done ih ht hf h)⟩

/-- A property that every production hands on from the rules it calls holds of every rule. -/
theorem parse_done (ht : setup.table = .standard)
    (hR : ∀ {rule s id s'}, Production R setup.maxDepth rule s id s' → R rule s id s')
    {rule : Rule} {s s' : State} {id : NodeId} (hf : Fits s rule)
    (h : rule.parse setup s = .done id s') : R rule s id s' := runWith_done ht hR hf h

/-- The same, where what the called rules keep is at hand. -/
theorem parse_done_kept (ht : setup.table = .standard)
    (hR : ∀ {rule s id s'}, Production (fun rule s id s' => Kept s s' ∧ R rule s id s')
      setup.maxDepth rule s id s' → R rule s id s')
    {rule : Rule} {s s' : State} {id : NodeId} (hf : Fits s rule)
    (h : rule.parse setup s = .done id s') : R rule s id s' := (runWith_done_kept ht hR hf h).2

end

end Smaug.Parse
