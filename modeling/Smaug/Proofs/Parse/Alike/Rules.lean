import Smaug.Proofs.Parse.Alike.Basic

/-! # Rules that go alike

Rules look at kinds of tokens, and at texts and places only to store them.  So every rule does the
same for two states that no step tells apart.
-/

namespace Smaug.Parse

/-! ## Constructs -/

section
variable {name name' : Name} {path path' : Path} {external external' : Option External}
variable {pattern pattern' : CasePattern}

instance (shape : Shape) : Related (InvImage Eq Shape.skeleton) shape shape := ⟨rfl⟩

instance [h : Related (InvImage Eq Name.skeleton) name name'] :
    Related (InvImage Eq Path.skeleton) (.single name) (.single name') :=
  ⟨congrArg (fun name => (⟨name, [], default⟩ : Path)) h.holds⟩

instance [h : Related (InvImage Eq Path.skeleton) path path'] :
    Related (InvImage Eq Shape.skeleton) (.identifier path) (.identifier path') :=
  ⟨congrArg Shape.identifier h.holds⟩

instance (value value' : Nat) :
    Related (InvImage Eq Shape.skeleton) (.integer value) (.integer value') := ⟨rfl⟩

instance (value value' : String) :
    Related (InvImage Eq Shape.skeleton) (.string value) (.string value') := ⟨rfl⟩

instance (object : NodeId) [h : Related (InvImage Eq Path.skeleton) path path'] :
    Related (InvImage Eq Shape.skeleton) (.member object path) (.member object path') :=
  ⟨congrArg (Shape.member object) h.holds⟩

instance [h : Related (InvImage Eq Path.skeleton) path path'] :
    Related (InvImage Eq Shape.skeleton) (.moduleHeader path) (.moduleHeader path') :=
  ⟨congrArg Shape.moduleHeader h.holds⟩

instance [h : Related (InvImage Eq Path.skeleton) path path'] :
    Related (InvImage Eq Shape.skeleton) (.importStatement path) (.importStatement path') :=
  ⟨congrArg Shape.importStatement h.holds⟩

instance (body : Body) [h : Related (InvImage Eq CasePattern.skeleton) pattern pattern'] :
    Related (InvImage Eq Shape.skeleton) (.matchCase pattern body) (.matchCase pattern' body) :=
  ⟨congrArg (Shape.matchCase · body) h.holds⟩

instance (signature : NodeId) (body : Body)
    [h : Related (InvImage Eq Name.skeleton) name name'] :
    Related (InvImage Eq Shape.skeleton) (.letFunction name signature body)
      (.letFunction name' signature body) :=
  ⟨congrArg (Shape.letFunction · signature body) h.holds⟩

instance (variants : List NodeId) [h : Related (InvImage Eq Name.skeleton) name name']
    [h' : Related (InvImage Eq (Option.map External.skeleton)) external external'] :
    Related (InvImage Eq Shape.skeleton) (.letEnum name external variants)
      (.letEnum name' external' variants) :=
  ⟨congrArg₂ (Shape.letEnum · · variants) h.holds h'.holds⟩

instance (type default : Option NodeId) [h : Related (InvImage Eq Name.skeleton) name name'] :
    Related (InvImage Eq Shape.skeleton) (.identifierPattern name type default)
      (.identifierPattern name' type default) :=
  ⟨congrArg (Shape.identifierPattern · type default) h.holds⟩

instance (arguments : NodeId) [h : Related (InvImage Eq Name.skeleton) name name'] :
    Related (InvImage Eq Shape.skeleton) (.enumPattern name arguments)
      (.enumPattern name' arguments) :=
  ⟨congrArg (Shape.enumPattern · arguments) h.holds⟩

end

/-! ## Rules -/

instance : Alike Eq primary primary := by
  refine alike_next fun token token' ht => ?_
  obtain ⟨kind, value, span⟩ := token
  obtain ⟨kind', value', span'⟩ := token'
  obtain rfl : kind = kind' := ht.kind
  cases kind with
  | integer =>
    have hi := ht.integer rfl
    have he : Alike Error.Alike (errorAt (.numberTooLarge value) span [])
        (errorAt (.numberTooLarge value') span' []) := alike_errorAt span span' [] rfl
    dsimp only at hi ⊢
    cases hv : Text.integer? value <;> cases hv' : Text.integer? value'
    · exact he.bind fun _ _ he => alike_refuse he
    · simp [hv, hv'] at hi
    · simp [hv, hv'] at hi
    · infer_instance
  | _ =>
    dsimp only
    infer_instance

instance : Alike Eq importStatement importStatement := by
  unfold importStatement; infer_instance

instance (left : NodeId) : Alike Eq (member left) (member left) := by
  unfold member; infer_instance

instance : Alike (InvImage Eq (Option.map fun _ : String => "")) externalModule externalModule := by
  refine alike_nextEq fun found => ?_
  refine alike_ite Iff.rfl (alike_next fun opening opening' _ => ?_) (alike_pure rfl)
  have : Alike (InvImage Eq (Option.map fun _ : String => ""))
      (do
        let module := (← expect .string).value
        let _ ← expect .closeParen
        return some module)
      (do
        let module := (← expect .string).value
        let _ ← expect .closeParen
        return some module) :=
    alike_next fun _ _ _ => alike_next fun _ _ _ => alike_pure rfl
  infer_instance

instance : Alike (InvImage Eq (Option.map External.skeleton)) external external := by
  refine alike_nextEq fun found => ?_
  refine alike_ite Iff.rfl (alike_next fun start start' _ => ?_) (alike_pure rfl)
  refine alike_next fun module module' hm => alike_next fun span span' _ => alike_pure ?_
  have hm : module.map (fun _ => "") = module'.map fun _ => "" := hm
  simp [InvImage, External.skeleton, hm]

section
variable {run run' : Rule → Parse NodeId} [∀ rule, Alike Eq (run rule) (run' rule)]
set_option synthInstance.maxSize 512

instance : Alike Eq (value run) (value run') := inferInstanceAs (Alike Eq (run _) (run' _))

instance : Alike Eq (typeExpression run) (typeExpression run') :=
  inferInstanceAs (Alike Eq (run _) (run' _))

instance : Alike Eq (operand run) (operand run') := by
  refine alike_nextEq fun kind => alike_nextEq fun table => ?_
  cases table.operand kind <;> infer_instance

instance (power : Power) : Alike Eq (expression run power) (expression run' power) := by
  unfold expression; infer_instance

instance (left : NodeId) (power : Power) :
    Alike Eq (continuation run left power) (continuation run' left power) := by
  refine alike_loop (R := Eq) ?_ rfl
  rintro left _ rfl
  refine alike_nextEq fun table => alike_nextEq fun kind => ?_
  cases table.suffix kind with
  | none => exact alike_pure (.finish rfl)
  | some entry =>
    refine alike_ite Iff.rfl ?_ (alike_pure (.finish rfl))
    exact alike_nextEq fun _ => alike_pure (.again rfl)

instance : Alike Eq (unary run) (unary run') := by
  refine alike_next fun token token' ht => ?_
  rw [ht.kind]
  infer_instance

instance (left : NodeId) (power : Power) :
    Alike Eq (binary run left power) (binary run' left power) := by
  refine alike_nextEq fun kind => ?_
  cases BinaryOp.ofKind? kind <;> infer_instance

instance (left : NodeId) : Alike Eq (call run left) (call run' left) := by
  unfold call; infer_instance

instance (left : NodeId) : Alike Eq (index run left) (index run' left) := by
  unfold index; infer_instance

instance : Alike Eq (grouping run) (grouping run') := by unfold grouping; infer_instance

instance (construct : String) : Alike Eq (tuple run construct) (tuple run' construct) := by
  unfold tuple; infer_instance

instance : Alike Eq (array run) (array run') := by unfold array; infer_instance

instance (construct : String) (opening opening' : Span) :
    Alike Eq (bracedStatements run construct opening)
      (bracedStatements run' construct opening') := by
  unfold bracedStatements; infer_instance

instance : Alike Eq (block run) (block run') := by unfold block; infer_instance

instance (allowDefault : Bool) :
    Alike Eq (pattern run allowDefault) (pattern run' allowDefault) := by
  refine alike_nested (alike_nextEq fun table => alike_nextEq fun kind => ?_)
  cases table.pattern kind <;> infer_instance

instance : Alike Eq (restPattern run) (restPattern run') := by unfold restPattern; infer_instance

instance (allowDefault : Bool) :
    Alike Eq (namedPattern run allowDefault) (namedPattern run' allowDefault) := by
  unfold namedPattern; infer_instance

instance : Alike Eq (annotatedType run) (annotatedType run') := by
  unfold annotatedType; infer_instance

instance (allowDefault : Bool) :
    Alike Eq (identifierPattern run allowDefault) (identifierPattern run' allowDefault) := by
  unfold identifierPattern; infer_instance

instance : Alike Eq (tuplePattern run) (tuplePattern run') := by
  unfold tuplePattern; infer_instance

instance : Alike Eq (enumPattern run) (enumPattern run') := by unfold enumPattern; infer_instance

instance : Alike Eq (literalPattern run) (literalPattern run') := by
  unfold literalPattern; infer_instance

instance : Alike Eq (attributeList run) (attributeList run') := by
  unfold attributeList; infer_instance

instance : Alike Eq (signatureAttributes run) (signatureAttributes run') := by
  have : Alike Eq (look fun s => s.kind == .yieldWord || s.kind == .comma)
      (look fun s => s.kind == .yieldWord || s.kind == .comma) :=
    alike_look fun h => by rw [h.kind]
  unfold signatureAttributes; infer_instance

instance : Alike Eq (signature run) (signature run') := by unfold signature; infer_instance

instance : Alike Eq (statement run) (statement run') := by
  refine alike_nextEq fun table => alike_nextEq fun kind => ?_
  cases table.statement kind <;> infer_instance

instance : Alike Eq (statementOrBlock run) (statementOrBlock run') := by
  unfold statementOrBlock; infer_instance

instance : Alike Eq (elseBranch run) (elseBranch run') := by unfold elseBranch; infer_instance

instance (start start' : Nat) : Alike Eq (letVariable run start) (letVariable run' start') := by
  unfold letVariable; infer_instance

instance : Alike Eq (doStatement run) (doStatement run') := by unfold doStatement; infer_instance

instance : Alike Eq (returnStatement run) (returnStatement run') := by
  unfold returnStatement; infer_instance

instance : Alike Eq (statementList run) (statementList run') := by
  unfold statementList; infer_instance

instance : Alike Eq (moreAttributes run) (moreAttributes run') := by
  unfold moreAttributes; infer_instance

instance : Alike Eq (yieldStatement run) (yieldStatement run') := by
  have (table : Table) : Alike Eq (look (continuesAsAttributes table))
      (look (continuesAsAttributes table)) :=
    alike_look fun h => by
      unfold continuesAsAttributes
      rw [h.kind, h.peek]
  unfold yieldStatement; infer_instance

instance : Alike Eq (ifStatement run) (ifStatement run') := by unfold ifStatement; infer_instance

/-- The pattern in the head of a range is the same, wherever its parenthesis stands. -/
instance : Alike (Option.Rel (InvImage Eq Prod.snd)) (rangeHead run) (rangeHead run') := by
  refine alike_nextEq fun found => ?_
  refine alike_ite Iff.rfl ?_ (alike_pure .none)
  refine alike_next fun mark mark' hm => alike_next fun opening opening' _ => ?_
  refine alike_nextEq fun pattern => ?_
  have hback : Alike (Option.Rel (InvImage Eq Prod.snd))
      (do
        change (·.reset mark)
        return none : Parse (Option (Span × NodeId)))
      (do
        change (·.reset mark')
        return none) := ⟨fun _ hs => .done .none (hs.reset hm)⟩
  cases pattern with
  | none => exact hback
  | some pattern =>
    refine alike_nextEq fun found => ?_
    exact alike_ite Iff.rfl (alike_pure (.some rfl)) hback

instance : Alike Eq (eachStatement run) (eachStatement run') := by
  refine alike_next fun _ _ _ => alike_next fun head head' hh => ?_
  cases hh with
  | none => infer_instance
  | @some head head' hh =>
    obtain ⟨opening, pattern⟩ := head
    obtain ⟨opening', pattern'⟩ := head'
    obtain rfl : pattern = pattern' := hh
    infer_instance

instance (note : String) (expected : List Expected) :
    Alike Eq (body run note expected) (body run' note expected) := by
  refine alike_nextEq fun kind => ?_
  cases kind <;> infer_instance

instance : Alike (InvImage Eq CasePattern.skeleton) (casePattern run) (casePattern run') := by
  refine alike_next fun span span' _ => alike_nextEq fun found => ?_
  exact alike_ite Iff.rfl (alike_pure rfl) (alike_nextEq fun _ => alike_pure rfl)

instance : Alike Eq (matchCase run) (matchCase run') := by unfold matchCase; infer_instance

instance : Alike Eq (matchStatement run) (matchStatement run') := by
  unfold matchStatement; infer_instance

instance (start start' : Nat) : Alike Eq (letFunction run start) (letFunction run' start') := by
  unfold letFunction; infer_instance

instance (start start' : Nat) : Alike Eq (letStruct run start) (letStruct run' start') := by
  unfold letStruct; infer_instance

instance (start start' : Nat) : Alike Eq (letEnum run start) (letEnum run' start') := by
  unfold letEnum; infer_instance

instance : Alike Eq (letStatement run) (letStatement run') := by
  refine alike_next fun token token' _ => alike_nextEq fun kind => ?_
  cases kind <;> infer_instance

instance (form : Form) : Alike Eq (form.body run) (form.body run') := by
  cases form <;> unfold Form.body <;> infer_instance

instance (left : NodeId) (power : Power) (suffix : Suffix) :
    Alike Eq (suffix.body run left power) (suffix.body run' left power) := by
  cases suffix <;> unfold Suffix.body <;> infer_instance

instance (allowDefault : Bool) (form : PatternForm) :
    Alike Eq (form.body run allowDefault) (form.body run' allowDefault) := by
  cases form <;> unfold PatternForm.body <;> infer_instance

instance (rule : Rule) : Alike Eq (rule.body run) (rule.body run') := by
  cases rule <;> unfold Rule.body <;> infer_instance

end

instance alike_runWith (fuel : Nat) (rule : Rule) :
    Alike Eq (Rule.runWith fuel rule) (Rule.runWith fuel rule) := by
  induction fuel generalizing rule with
  | zero => exact inferInstanceAs (Alike Eq (stop .exhausted) (stop .exhausted))
  | succ fuel ih =>
    exact inferInstanceAs (Alike Eq (rule.body (Rule.runWith fuel)) (rule.body (Rule.runWith fuel)))

/-- Every rule does the same where nothing differs that it looks at. -/
instance alike_parse (rule : Rule) : Alike Eq rule.parse rule.parse where
  outcome {setup setup' s s'} hsetup hs := by
    have hf : Rule.fuel setup s = Rule.fuel setup' s' := by
      rw [Rule.fuel, Rule.fuel, hs.remaining, hs.depth, hsetup.maxDepth]
    unfold Rule.parse
    rw [hf]
    exact alike (Rule.runWith _ rule) (Rule.runWith _ rule) hsetup hs

instance : Alike Eq header header := by unfold header; infer_instance

end Smaug.Parse
