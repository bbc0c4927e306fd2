import Mathlib
import Smaug.Proofs.Parse.Cut.Lookahead
import Smaug.Proofs.Parse.Embed.Basic

/-! # Rules on a piece that is put into an input

What a rule has done within a piece it does where the piece is put.  If it came to the end of the
piece, then what stands there matters in two cases: a statement list after a colon takes what it can
get, and the operand of a `yield` becomes an attribute where more attributes or a list come next.
-/

namespace Smaug.Parse

open Grammar

/-- What is left at the end of a piece does not go on with what stands behind it. -/
structure Site.Admits (f : Site) (i : NodeId) (c : State) : Prop where
  list : EndsIn c.nodes (fun shape => shape.isColonList) i → f.Ends
  operand : EndsIn c.nodes (YieldsType c.nodes) i → f.continues = false

theorem Site.Ends.continues {f : Site} (h : f.Ends) : f.continues = false := by
  rcases h with h | h <;> simp [Site.continues, continuesAsAttributes, State.kind, h]

theorem Site.Ends.admits {f : Site} (h : f.Ends) (i : NodeId) (c : State) : f.Admits i c :=
  ⟨fun _ => h, fun _ => h.continues⟩

/-- A construct ends as its last part does. -/
theorem Site.Admits.last {f : Site} {c : State} {shape : Shape} {span : Span} {part : NodeId}
    (h : f.Admits c.nodes.size (c.push ⟨shape, span⟩)) (hl : shape.last? = some part) :
    f.Admits part c := by
  have hpush {sort sort' : Shape → Prop} (hs : ∀ shape, sort shape → sort' shape)
      (he : EndsIn c.nodes sort part) :
      EndsIn (c.nodes.push ⟨shape, span⟩) sort' c.nodes.size :=
    .last Array.getElem?_push_size hl (he.mono getElem?_push_of_some hs)
  exact ⟨fun he => h.list (hpush (fun _ hs => hs) he),
    fun he => h.operand (hpush (fun _ hs => hs.mono getElem?_push_of_some) he)⟩

/-- What has to hold where a rule comes to the end of the piece.  Some rules end with a sign of
their own, and some are not the last part of anything. -/
def Site.AdmitsAfter (f : Site) : Rule → NodeId → State → Prop
  | .tuple _ | .form .array | .form .block | .pattern .tuple _ | .pattern .enum _ => When True
  | .form .signature | .pattern .. => When False
  | _ => f.Admits

instance : Renumbered Rule where
  renumbered number
    | .continuation left power => .continuation (number left) power
    | .suffix operator left power => .suffix operator (number left) power
    | rule => rule

/-! ## Constructs -/

section
variable {f : Site} {i i' j j' k k' : NodeId} {is is' : List NodeId} {o o' : Option NodeId}
  {name name' : Name} {path path' : Path}

instance [h : Related (Like f) name name'] : Related (Like f) (Path.single name) (.single name') :=
  ⟨congrArg (fun name => (⟨name, [], default⟩ : Path)) h.holds⟩

instance [h : Related (Like f) path path'] :
    Related (Like f) (Shape.identifier path) (.identifier path') :=
  ⟨congrArg Shape.identifier h.holds⟩

instance (value : Nat) : Related (Like f) (Shape.integer value) (.integer value) := ⟨rfl⟩

instance (value : String) : Related (Like f) (Shape.string value) (.string value) := ⟨rfl⟩

instance (op : UnaryOp) [h : Related (Like f) i i'] :
    Related (Like f) (Shape.unary op i) (.unary op i') := ⟨congrArg (Shape.unary op) h.holds⟩

instance (op : BinaryOp) [h : Related (Like f) i i'] [h' : Related (Like f) j j'] :
    Related (Like f) (Shape.binary op i j) (.binary op i' j') :=
  ⟨congrArg₂ (Shape.binary op) h.holds h'.holds⟩

instance [h : Related (Like f) i i'] : Related (Like f) (Shape.paren i) (.paren i') :=
  ⟨congrArg Shape.paren h.holds⟩

instance [h : Related (Like f) is is'] : Related (Like f) (Shape.tuple is) (.tuple is') :=
  ⟨congrArg Shape.tuple h.holds⟩

instance [h : Related (Like f) is is'] : Related (Like f) (Shape.array is) (.array is') :=
  ⟨congrArg Shape.array h.holds⟩

instance [h : Related (Like f) is is'] : Related (Like f) (Shape.block is) (.block is') :=
  ⟨congrArg Shape.block h.holds⟩

instance [h : Related (Like f) i i'] [h' : Related (Like f) j j'] :
    Related (Like f) (Shape.call i j) (.call i' j') := ⟨congrArg₂ Shape.call h.holds h'.holds⟩

instance [h : Related (Like f) i i'] [h' : Related (Like f) j j'] :
    Related (Like f) (Shape.index i j) (.index i' j') := ⟨congrArg₂ Shape.index h.holds h'.holds⟩

instance [h : Related (Like f) i i'] [h' : Related (Like f) path path'] :
    Related (Like f) (Shape.member i path) (.member i' path') :=
  ⟨congrArg₂ Shape.member h.holds h'.holds⟩

instance [h : Related (Like f) path path'] :
    Related (Like f) (Shape.importStatement path) (.importStatement path') :=
  ⟨congrArg Shape.importStatement h.holds⟩

instance [h : Related (Like f) i i'] : Related (Like f) (Shape.doStatement i) (.doStatement i') :=
  ⟨congrArg Shape.doStatement h.holds⟩

instance [h : Related (Like f) i i'] :
    Related (Like f) (Shape.yieldStatement i) (.yieldStatement i') :=
  ⟨congrArg Shape.yieldStatement h.holds⟩

instance [h : Related (Like f) i i'] :
    Related (Like f) (Shape.returnStatement i) (.returnStatement i') :=
  ⟨congrArg Shape.returnStatement h.holds⟩

instance [h : Related (Like f) i i'] [h' : Related (Like f) j j'] :
    Related (Like f) (Shape.each i j) (.each i' j') := ⟨congrArg₂ Shape.each h.holds h'.holds⟩

instance [h : Related (Like f) i i'] [h' : Related (Like f) j j'] [h'' : Related (Like f) k k'] :
    Related (Like f) (Shape.eachRange i j k) (.eachRange i' j' k') :=
  ⟨(congr (congrArg₂ Shape.eachRange h.holds h'.holds) h''.holds :)⟩

instance [h : Related (Like f) i i'] [h' : Related (Like f) is is'] :
    Related (Like f) (Shape.matchStatement i is) (.matchStatement i' is') :=
  ⟨congrArg₂ Shape.matchStatement h.holds h'.holds⟩

instance {pattern pattern' : CasePattern} {body body' : Body}
    [h : Related (Like f) pattern pattern'] [h' : Related (Like f) body body'] :
    Related (Like f) (Shape.matchCase pattern body) (.matchCase pattern' body') :=
  ⟨congrArg₂ Shape.matchCase h.holds h'.holds⟩

instance [h : Related (Like f) i i'] : Related (Like f) (Shape.retryCase i) (.retryCase i') :=
  ⟨congrArg Shape.retryCase h.holds⟩

instance [h : Related (Like f) is is'] [h' : Related (Like f) i i'] :
    Related (Like f) (Shape.batchAttributes is i) (.batchAttributes is' i') :=
  ⟨congrArg₂ Shape.batchAttributes h.holds h'.holds⟩

instance (form : ListForm) [h : Related (Like f) is is'] :
    Related (Like f) (Shape.transparentList form is) (.transparentList form is') :=
  ⟨congrArg (Shape.transparentList form) h.holds⟩

instance [h : Related (Like f) i i'] :
    Related (Like f) (Shape.yieldAttribute i) (.yieldAttribute i') :=
  ⟨congrArg Shape.yieldAttribute h.holds⟩

instance [h : Related (Like f) i i'] [h' : Related (Like f) j j'] :
    Related (Like f) (Shape.letVariable i j) (.letVariable i' j') :=
  ⟨congrArg₂ Shape.letVariable h.holds h'.holds⟩

instance [h : Related (Like f) i i'] : Related (Like f) (Shape.letStruct i) (.letStruct i') :=
  ⟨congrArg Shape.letStruct h.holds⟩

instance {module module' : Option External} [h : Related (Like f) name name']
    [h' : Related (Like f) module module'] [h'' : Related (Like f) is is'] :
    Related (Like f) (Shape.letEnum name module is) (.letEnum name' module' is') :=
  ⟨(congr (congrArg₂ Shape.letEnum h.holds h'.holds) h''.holds :)⟩

instance [h : Related (Like f) i i'] : Related (Like f) (Shape.restPattern i) (.restPattern i') :=
  ⟨congrArg Shape.restPattern h.holds⟩

instance {default default' : Option NodeId} [h : Related (Like f) name name']
    [h' : Related (Like f) o o'] [h'' : Related (Like f) default default'] :
    Related (Like f) (Shape.identifierPattern name o default)
      (.identifierPattern name' o' default') :=
  ⟨(congr (congrArg₂ Shape.identifierPattern h.holds h'.holds) h''.holds :)⟩

instance [h : Related (Like f) is is'] :
    Related (Like f) (Shape.tuplePattern is) (.tuplePattern is') :=
  ⟨congrArg Shape.tuplePattern h.holds⟩

instance [h : Related (Like f) name name'] [h' : Related (Like f) i i'] :
    Related (Like f) (Shape.enumPattern name i) (.enumPattern name' i') :=
  ⟨congrArg₂ Shape.enumPattern h.holds h'.holds⟩

instance [h : Related (Like f) i i'] :
    Related (Like f) (Shape.literalPattern i) (.literalPattern i') :=
  ⟨congrArg Shape.literalPattern h.holds⟩

instance [h : Related (Like f) i i'] [h' : Related (Like f) o o'] [h'' : Related (Like f) is is'] :
    Related (Like f) (Shape.functionSignature i o is) (.functionSignature i' o' is') :=
  ⟨(congr (congrArg₂ Shape.functionSignature h.holds h'.holds) h''.holds :)⟩

instance (span span' : Span) :
    Related (Like f) (CasePattern.default span) (.default span') := ⟨rfl⟩

instance [h : Related (Like f) i i'] :
    Related (Like f) (CasePattern.pattern i) (.pattern i') := ⟨congrArg CasePattern.pattern h.holds⟩

instance (value : Option String) : Related (Like f) value value := ⟨rfl⟩

instance (module : Option String) (span span' : Span) :
    Related (Like f) (⟨module, span⟩ : External) ⟨module, span'⟩ := ⟨rfl⟩

instance (form : Form) : Related (Like f) (Rule.form form) (.form form) := ⟨rfl⟩

instance (power : Power) : Related (Like f) (Rule.expression power) (.expression power) := ⟨rfl⟩

instance (construct : String) : Related (Like f) (Rule.tuple construct) (.tuple construct) := ⟨rfl⟩

instance (form : PatternForm) (allowDefault : Bool) :
    Related (Like f) (Rule.pattern form allowDefault) (.pattern form allowDefault) := ⟨rfl⟩

end

/-! ## Rules that end with a sign of their own -/

section
variable {f : Site}

instance {P : NodeId → State → Prop} : Embeds f P primary primary := by
  refine EmbedsInside.of_passes (embedsInside_look_bind Embedded.current fun token token' hl => ?_)
  obtain ⟨kind, value, span⟩ := token
  obtain ⟨kind', value', span'⟩ := token'
  obtain ⟨rfl, rfl, -⟩ := Token.mk.inj hl
  dsimp only
  split
  · split
    · exact embedsInside_advance fun _ _ _ => inferInstance
    · exact Embeds.inside inferInstance
  · exact embedsInside_advance fun _ _ _ => inferInstance
  all_goals exact Embeds.inside inferInstance

theorem embeds_importStatement {P : NodeId → State → Prop} :
    EmbedsInside f P importStatement importStatement :=
  embedsInside_advance fun _ _ _ => inferInstance

instance {left left' : NodeId} [Related (Like f) left left'] {P : NodeId → State → Prop} :
    Embeds f P (member left) (member left') := by
  unfold member
  infer_instance

instance : Embeds f (When False) externalModule externalModule := by
  have (token token' : Token) (h : Like f token token') :
      Related (Like f) (some token.value) (some token'.value) :=
    ⟨congrArg some (Token.mk.inj h).2.1⟩
  refine EmbedsInside.of_keeps (embedsInside_isAt fun b => embedsInside_ite ?_
    (Embeds.inside inferInstance))
  refine embedsInside_advance fun opening opening' _ => ?_
  have : Embeds f (When False)
      (do
        let module := (← expect .string).value
        let _ ← expect .closeParen
        return some module)
      (do
        let module := (← expect .string).value
        let _ ← expect .closeParen
        return some module) :=
    embeds_bind inferInstance (fun _ => inferInstance) fun token token' hl =>
      have := this token token' hl
      inferInstance
  infer_instance

instance : Embeds f (When False) external external := by
  refine EmbedsInside.of_keeps (embedsInside_isAt fun b => embedsInside_ite ?_
    (Embeds.inside inferInstance))
  refine embedsInside_advance fun start start' _ => ?_
  refine embeds_bind inferInstance (fun _ => inferInstance) fun module module' hm => ?_
  obtain rfl : module = module' := hm
  infer_instance

end

/-! ## Rules that call others -/

class EmbedsRules (f : Site) (run run' : Rule → Parse NodeId) : Prop where
  inside {rule rule' : Rule} (h : Like f rule rule') :
    EmbedsInside f (f.AdmitsAfter rule') (run rule) (run' rule')
  continuation {left left' : NodeId} (power : Power) (h : Like f left left') :
    Embeds f f.Admits (run (.continuation left power)) (run' (.continuation left' power))

/-- What the rules in a piece are known by. -/
class Tidy (run' : Rule → Parse NodeId) : Prop where
  /-- No suffix follows at the end of the piece. -/
  stays {setup : Setup} (ht : setup.table = .standard) {c c' : State} (hc : c.kind = .eof)
    {left i : NodeId} {power : Power} (hd : run' (.continuation left power) setup c = .done i c') :
    i = left ∧ c' = c
  /-- A type is no operation that binds as loosely as a comparison. -/
  type {setup : Setup} (ht : setup.table = .standard) {c c' : State} {i : NodeId}
    (hd : run' (.expression .compare) setup c = .done i c') :
    ∃ node, c'.nodes[i]? = some node ∧ node.shape.isLoose = false

theorem Site.Admits.form {f : Site} {form : Form} (hf : form ≠ .signature) {i : NodeId} {c : State}
    (h : f.Admits i c) : f.AdmitsAfter (.form form) i c := by
  cases form <;> first | exact h | exact trivial | contradiction

theorem Table.ne_signature_of_operands {kind : Token.Kind} {form : Form}
    (h : Table.operands kind = some form) : form ≠ .signature := by
  unfold Table.operands at h
  split at h <;> cases h <;> decide

theorem Table.ne_signature_of_statements {kind : Token.Kind} {form : Form}
    (h : Table.statements kind = some form) : form ≠ .signature := by
  unfold Table.statements at h
  split at h <;> cases h <;> decide

theorem Table.suffixes_of_closing {kind : Token.Kind} (h : kind.endsConstruct) :
    Table.suffixes kind = none := by
  cases kind <;> first | rfl | cases h

section
variable {f : Site} {run run' : Rule → Parse NodeId} [∀ rule, Keeps (run' rule)] [Passing run']
  [EmbedsRules f run run']

theorem embeds_run {rule : Rule} [rule.Free] [hl : Related (Like f) rule rule]
    {Q : NodeId → State → Prop} (hq : ∀ i c, Q i c → f.AdmitsAfter rule i c) :
    Embeds f Q (run rule) (run' rule) :=
  EmbedsInside.of_passes ((EmbedsRules.inside hl.holds).mono hq)

instance (rule : Rule) [rule.Free] [Related (Like f) rule rule] :
    Embeds f (When False) (run rule) (run' rule) :=
  embeds_run fun _ _ h => h.elim

instance {P : NodeId → State → Prop} (construct : String) :
    Embeds f P (run (.tuple construct)) (run' (.tuple construct)) :=
  embeds_run fun _ _ _ => trivial

instance {P : NodeId → State → Prop} : Embeds f P (run (.form .array)) (run' (.form .array)) :=
  embeds_run fun _ _ _ => trivial

instance {P : NodeId → State → Prop} : Embeds f P (run (.form .block)) (run' (.form .block)) :=
  embeds_run fun _ _ _ => trivial

instance {P : NodeId → State → Prop} (b : Bool) :
    Embeds f P (run (.pattern .tuple b)) (run' (.pattern .tuple b)) :=
  embeds_run fun _ _ _ => trivial

instance {P : NodeId → State → Prop} (b : Bool) :
    Embeds f P (run (.pattern .enum b)) (run' (.pattern .enum b)) :=
  embeds_run fun _ _ _ => trivial

instance : Embeds f f.Admits (run (.form .statement)) (run' (.form .statement)) :=
  embeds_run fun _ _ h => h

instance (power : Power) : Embeds f f.Admits (run (.expression power)) (run' (.expression power)) :=
  embeds_run fun _ _ h => h

instance : Embeds f f.Admits (value run) (value run') :=
  inferInstanceAs (Embeds f f.Admits (run (.expression .lowest)) (run' (.expression .lowest)))

instance : Embeds f (When False) (value run) (value run') :=
  inferInstanceAs (Embeds f (When False) (run (.expression .lowest)) (run' (.expression .lowest)))

instance : Embeds f (When False) (typeExpression run) (typeExpression run') :=
  inferInstanceAs (Embeds f (When False) (run (.expression .compare)) (run' (.expression .compare)))

set_option synthInstance.maxSize 2048

omit [∀ rule, Keeps (run' rule)] [Passing run'] in
theorem embeds_form {form : Form} (hf : form ≠ .signature) :
    EmbedsInside f f.Admits (run (.form form)) (run' (.form form)) :=
  (EmbedsRules.inside (show Like f (Rule.form form) (.form form) from rfl)).mono fun _ _ h =>
    h.form hf

theorem embeds_operand : EmbedsInside f f.Admits (operand run) (operand run') := by
  refine embedsInside_kind fun kind => embedsInside_given ?_
  cases hf : Table.standard.operand kind with
  | some form => exact embeds_form (Table.ne_signature_of_operands hf)
  | none => exact Embeds.inside inferInstance

omit [∀ rule, Keeps (run' rule)] [Passing run'] in
theorem embeds_statement : EmbedsInside f f.Admits (statement run) (statement run') := by
  refine embedsInside_given (embedsInside_kind fun kind => ?_)
  cases hf : Table.standard.statement kind with
  | some form => exact embeds_form (Table.ne_signature_of_statements hf)
  | none => exact Embeds.inside inferInstance

omit [Passing run'] in
theorem embeds_pattern (b : Bool) :
    EmbedsInside f (When False) (pattern run b) (pattern run' b) := by
  refine embedsInside_nested (P := When False) ?_
    (embedsInside_given (embedsInside_kind fun kind => ?_)) fun _ _ h => h
  · refine keeps_bind _ fun table => keeps_bind _ fun kind => ?_
    split <;> infer_instance
  cases Table.standard.pattern kind with
  | some form =>
    have hl : Like f (Rule.pattern form b) (.pattern form b) := rfl
    exact (EmbedsRules.inside hl).mono fun _ _ h => h.elim
  | none => exact Embeds.inside inferInstance

theorem embeds_expression [Tidy run'] (power : Power) :
    EmbedsInside f f.Admits (expression run power) (expression run' power) := by
  refine embedsInside_nested (P := f.Admits) inferInstance ?_ fun _ _ h => ⟨h.list, h.operand⟩
  refine embeds_operand.bind (fun left left' hl => EmbedsRules.continuation power hl) ?_
  intro left setup c c' value ht _ hc hd hq
  obtain ⟨rfl, rfl⟩ := Tidy.stays ht hc hd
  exact hq hc

omit [∀ rule, Keeps (run' rule)] [Passing run'] [EmbedsRules f run run'] in
theorem suffixTurn_closing (run : Rule → Parse NodeId) {setup : Setup} (ht : setup.table = .standard)
    {s : State} (hs : s.kind.endsConstruct) (power : Power) (left : NodeId) :
    suffixTurn run power left setup s = .done (.finish left) s := by
  have hnone : setup.table.suffix s.kind = none := ht ▸ Table.suffixes_of_closing hs
  exact suffixTurn_loose run (by simp [hnone]) left

omit [Passing run'] in
theorem embeds_continuation (power : Power) {left left' : NodeId} (hl : Like f left left') :
    Embeds f f.Admits (continuation run left power) (continuation run' left' power) := by
  rw [continuation_eq, continuation_eq]
  refine embeds_loop
    (R := fun turn c => match turn with | .again i | .finish i => f.Admits i c)
    (fun left left' hl => ⟨?_⟩) ?_ (fun _ _ h => h) hl
  · intro setup setup' hsetup s c c' turn hs hd hq
    by_cases hc : c.kind = .eof
    · rw [suffixTurn_closing run' hsetup.table_piece (by rw [hc]; rfl)] at hd
      cases hd
      rw [suffixTurn_closing run hsetup.table (hs.closing hc)]
      exact .done ⟨hl.finish, hs⟩
    · have hinside : EmbedsInside f
          (fun turn c => match turn with | .again i | .finish i => f.Admits i c)
          (suffixTurn run power left) (suffixTurn run' power left') := by
        refine embedsInside_given (embedsInside_kind fun kind => ?_)
        cases Table.standard.suffix kind with
        | none => exact (embeds_pure hl.finish).inside
        | some entry =>
          obtain ⟨next, suffix⟩ := entry
          refine embedsInside_ite ?_ (embeds_pure hl.finish).inside
          have hrule : Like f (Rule.suffix suffix left next) (.suffix suffix left' next) :=
            congrArg (Rule.suffix suffix · next) hl
          refine (EmbedsRules.inside hrule).bind (fun i i' hi => embeds_pure hi.again) ?_
          intro i setup c c' value _ _ hc hd hq
          obtain ⟨rfl, rfl⟩ := pure_done.1 hd
          exact hq hc
      exact hinside.yields hsetup hs (State.hasTokens_of_ne hc) hd hq
  · intro left turns setup c c' value ht hc hd hq
    cases turns with
    | zero => cases hd
    | succ turns =>
      obtain ⟨turn, c₁, hturn, hd⟩ := bind_done.1 hd
      rw [suffixTurn_closing run' ht (by rw [hc]; rfl)] at hturn
      cases hturn
      obtain ⟨rfl, rfl⟩ := pure_done.1 hd
      exact hq

theorem embeds_unary : EmbedsInside f f.Admits (unary run) (unary run') := by
  refine embedsInside_advance fun token token' hl => ?_
  have hk : token.kind = token'.kind := (Token.mk.inj hl).1
  rw [hk]
  refine embeds_last (P := f.Admits) inferInstance (fun i => inferInstance) (fun i i' hi => ?_) ?_
  · have : Related (Like f) i i' := ⟨hi⟩
    infer_instance
  · intro i setup c c' value _ _ hd hq
    simp only [bind_done, spanOf_done, push_done] at hd
    obtain ⟨_, _, ⟨_, -, -, rfl⟩, rfl, rfl⟩ := hd
    exact hq.last rfl

theorem embeds_binary (power : Power) {left left' : NodeId} (hl : Like f left left') :
    EmbedsInside f f.Admits (binary run left power) (binary run' left' power) := by
  have : Related (Like f) left left' := ⟨hl⟩
  refine embedsInside_kind fun kind => ?_
  cases BinaryOp.ofKind? kind with
  | none => exact Embeds.inside inferInstance
  | some op =>
    refine embedsInside_advance fun token token' _ => ?_
    refine embeds_last (P := f.Admits) inferInstance (fun i => inferInstance) (fun i i' hi => ?_) ?_
    · have : Related (Like f) i i' := ⟨hi⟩
      infer_instance
    · intro i setup c c' value _ _ hd hq
      simp only [bind_done, spanOf_done, push_done] at hd
      obtain ⟨_, _, ⟨_, -, -, rfl⟩, _, _, ⟨_, -, -, rfl⟩, rfl, rfl⟩ := hd
      exact hq.last rfl

instance {P : NodeId → State → Prop} {left left' : NodeId} [Related (Like f) left left'] :
    Embeds f P (call run left) (call run' left') := by
  unfold call
  infer_instance

instance {P : NodeId → State → Prop} {left left' : NodeId} [Related (Like f) left left'] :
    Embeds f P (index run left) (index run' left') := by
  unfold index
  infer_instance

instance {P : NodeId → State → Prop} : Embeds f P (grouping run) (grouping run') := by
  unfold grouping
  infer_instance

instance {P : NodeId → State → Prop} (construct : String) :
    Embeds f P (tuple run construct) (tuple run' construct) := by
  unfold tuple
  infer_instance

instance {P : NodeId → State → Prop} : Embeds f P (array run) (array run') := by
  unfold array
  infer_instance

instance {item item' : Parse NodeId} [Keeps item'] [Embeds f (When False) item item'] :
    Embeds f (When False) (bracedItems item) (bracedItems item') :=
  embeds_bracedItems False.elim

instance {P : List NodeId → State → Prop} (construct : String) (opening opening' : Span) :
    Embeds f P (bracedStatements run construct opening)
      (bracedStatements run' construct opening') := by
  unfold bracedStatements
  infer_instance

instance {P : NodeId → State → Prop} : Embeds f P (block run) (block run') := by
  unfold block
  infer_instance

instance : Embeds f (When False) (restPattern run) (restPattern run') := by
  unfold restPattern
  infer_instance

instance : Embeds f (When False) (annotatedType run) (annotatedType run') := by
  unfold annotatedType
  infer_instance

instance (b : Bool) : Embeds f (When False) (identifierPattern run b) (identifierPattern run' b) := by
  unfold identifierPattern
  infer_instance

instance {P : NodeId → State → Prop} : Embeds f P (tuplePattern run) (tuplePattern run') := by
  unfold tuplePattern
  infer_instance

instance {P : NodeId → State → Prop} : Embeds f P (enumPattern run) (enumPattern run') := by
  unfold enumPattern
  infer_instance

instance : Embeds f (When False) (literalPattern run) (literalPattern run') := by
  unfold literalPattern
  infer_instance

end

end Smaug.Parse
