import Mathlib.Data.List.Forall2
import Smaug.Parse.Parsed
import Smaug.Proofs.Parse.Kept

/-! # Parses that go alike

No step of a parse looks at a place in the source, at the name of the file or at the text of a
token, but for the words that the grammar asks for and the bound on integers.  So two parses of
tokens that differ in nothing else do the same, step by step: they build the same skeletons, and
where one refuses its input the other does too, with the same error about other texts.
-/

namespace Smaug

/-! ## Skeletons

What is left of a construct once the texts and the places of its names and the values of its
literals are forgotten: the construct itself, its operator and the nodes it is made of.
-/

def Name.skeleton (name : Name) : Name := ⟨"", name.builtIn, default⟩

def Path.skeleton (path : Path) : Path :=
  ⟨path.first.skeleton, path.more.map Name.skeleton, default⟩

def External.skeleton (external : External) : External :=
  ⟨external.module.map fun _ => "", default⟩

def CasePattern.skeleton : CasePattern → CasePattern
  | default _ => .default Inhabited.default
  | pattern id => pattern id

namespace Shape

/-- A construct without the texts and the places in it. -/
def skeleton : Shape → Shape
  | identifier path => identifier path.skeleton
  | integer _ => integer 0
  | string _ => string ""
  | member object path => member object path.skeleton
  | moduleHeader path => moduleHeader path.skeleton
  | importStatement path => importStatement path.skeleton
  | matchCase pattern body => matchCase pattern.skeleton body
  | letFunction name signature body => letFunction name.skeleton signature body
  | letEnum name external variants =>
    letEnum name.skeleton (external.map External.skeleton) variants
  | identifierPattern name type default => identifierPattern name.skeleton type default
  | enumPattern name arguments => enumPattern name.skeleton arguments
  | shape => shape

end Shape

/-! ## Tokens and errors -/

/-- The identifiers that the grammar asks for by their spelling. -/
def contextualWords : List String := ["module", "else", "default"]

/-- Two tokens that no rule tells apart. -/
structure Token.Alike (t t' : Token) : Prop where
  kind : t.kind = t'.kind
  word : ∀ word ∈ contextualWords, t.isWord word = t'.isWord word
  integer : t.kind = .integer →
    (Text.integer? t.value).isSome = (Text.integer? t'.value).isSome

theorem Token.Alike.refl (t : Token) : t.Alike t := ⟨rfl, fun _ _ => rfl, fun _ => rfl⟩

theorem Token.Alike.endAt (span span' : Span) : (Token.endAt span).Alike (Token.endAt span') :=
  ⟨rfl, fun _ _ => rfl, fun _ => rfl⟩

theorem Token.Alike.isName {t t' : Token} (h : t.Alike t') : t.isName = t'.isName := by
  rw [Token.isName, Token.isName, h.kind]

def Cause.skeleton : Cause → Cause
  | invalidEscape _ => invalidEscape ' '
  | strayCharacter _ => strayCharacter ' '
  | unexpectedToken _ note => unexpectedToken "" note
  | numberTooLarge _ => numberTooLarge ""
  | reservedWord _ => reservedWord ""
  | cause => cause

structure Error.Alike (e e' : Error) : Prop where
  cause : e.cause.skeleton = e'.cause.skeleton
  expected : e.expected = e'.expected

theorem Cause.skeleton_classify (cause : Cause) : cause.skeleton.classify = cause.classify := by
  cases cause <;> rfl

theorem Cause.skeleton_unexpectedEnd (cause : Cause) :
    (cause.skeleton == .unexpectedEnd) = (cause == .unexpectedEnd) := by
  cases cause <;> rfl

namespace Error.Alike

variable {e e' : Error}

theorem classify (h : e.Alike e') : e.classify = e'.classify := by
  rw [Error.classify, Error.classify, ← Cause.skeleton_classify, h.cause, Cause.skeleton_classify]

theorem isAtEnd (h : e.Alike e') : e.isAtEnd = e'.isAtEnd := by
  rw [Error.isAtEnd, Error.isAtEnd, ← Cause.skeleton_unexpectedEnd, h.cause,
    Cause.skeleton_unexpectedEnd]

theorem inside (delimiter : Char) (construct : String) (opening opening' : Span)
    (h : e.Alike e') :
    (e.inside delimiter construct opening).Alike (e'.inside delimiter construct opening') := by
  unfold Error.inside
  rw [h.isAtEnd]
  by_cases he : e'.isAtEnd
  · rw [if_pos he, if_pos he]
    exact ⟨rfl, h.expected⟩
  · rw [if_neg he, if_neg he]
    exact h

end Error.Alike

namespace Parse

structure Setup.Alike (setup setup' : Setup) : Prop where
  maxDepth : setup.maxDepth = setup'.maxDepth
  table : setup.table = setup'.table

def NodesAlike (nodes nodes' : Array Node) : Prop :=
  nodes.map (·.shape.skeleton) = nodes'.map (·.shape.skeleton)

theorem NodesAlike.size_eq {nodes nodes' : Array Node} (h : NodesAlike nodes nodes') :
    nodes.size = nodes'.size := by
  simpa using congrArg Array.size h

theorem NodesAlike.push {nodes nodes' : Array Node} {node node' : Node}
    (h : NodesAlike nodes nodes') (hn : node.shape.skeleton = node'.shape.skeleton) :
    NodesAlike (nodes.push node) (nodes'.push node') := by
  rw [NodesAlike, Array.map_push, Array.map_push, h, hn]

theorem NodesAlike.shrink {nodes nodes' : Array Node} (n : Nat) (h : NodesAlike nodes nodes') :
    NodesAlike (nodes.shrink n) (nodes'.shrink n) := by
  unfold NodesAlike at h ⊢
  have hl := congrArg (fun skeletons => skeletons.toList.take n) h
  simp only [Array.toList_map, ← List.map_take] at hl
  apply Array.toList_inj.1
  rw [Array.toList_map, Array.toList_map, Array.toList_shrink, Array.toList_shrink, hl]

/-- Two states that no step tells apart. -/
structure State.Alike (s s' : State) : Prop where
  current : s.current.Alike s'.current
  ahead : List.Forall₂ Token.Alike s.ahead s'.ahead
  nodes : NodesAlike s.nodes s'.nodes
  depth : s.depth = s'.depth

structure Mark.Alike (m m' : Mark) : Prop where
  current : m.current.Alike m'.current
  ahead : List.Forall₂ Token.Alike m.ahead m'.ahead
  nodeCount : m.nodeCount = m'.nodeCount
  depth : m.depth = m'.depth

namespace State.Alike

variable {s s' : State}

theorem kind (h : s.Alike s') : s.kind = s'.kind := h.current.kind

theorem hasTokens (h : s.Alike s') : s.hasTokens = s'.hasTokens := by
  rw [State.hasTokens, State.hasTokens, h.kind]

theorem length_ahead (h : s.Alike s') : s.ahead.length = s'.ahead.length := h.ahead.length_eq

theorem remaining (h : s.Alike s') : s.remaining = s'.remaining := by
  rw [State.remaining, State.remaining, h.length_ahead]

theorem word {word : String} (hw : word ∈ contextualWords) (h : s.Alike s') :
    s.current.isWord word = s'.current.isWord word := h.current.word word hw

theorem kinds_ahead (h : s.Alike s') :
    s.ahead.map Token.kind = s'.ahead.map Token.kind := by
  rw [← List.forall₂_eq_eq_eq, List.forall₂_map_left_iff, List.forall₂_map_right_iff]
  exact h.ahead.imp fun _ _ ht => ht.kind

end State.Alike

/-- The kind of a token further on, by the kinds of the tokens. -/
theorem State.peek_eq (s : State) (n : Nat) :
    s.peek n = ((s.kind :: s.ahead.map Token.kind)[n]?.getD
      ((s.ahead.map Token.kind).getLast?.getD s.kind)) := by
  unfold State.peek State.kind
  rw [← List.map_cons (f := Token.kind), List.getElem?_map, List.getLast?_map]
  cases (s.current :: s.ahead)[n]? <;> cases s.ahead.getLast? <;> rfl

namespace State.Alike

variable {s s' : State}

theorem peek (h : s.Alike s') (n : Nat) : s.peek n = s'.peek n := by
  rw [State.peek_eq, State.peek_eq, h.kind, h.kinds_ahead]

theorem advance (h : s.Alike s') : s.advance.Alike s'.advance := by
  obtain ⟨current, ahead, nodes, depth, lastStop⟩ := s
  obtain ⟨current', ahead', nodes', depth', lastStop'⟩ := s'
  obtain ⟨hc, ha, hn, hd⟩ := h
  cases ha with
  | nil => exact ⟨hc, .nil, hn, hd⟩
  | cons ht ha =>
    have hk : current.kind = current'.kind := hc.kind
    by_cases he : current'.kind = .eof
    · simp only [State.advance, State.hasTokens, State.kind, hk, he, bne_self_eq_false,
        Bool.false_eq_true, if_false]
      exact ⟨hc, .cons ht ha, hn, hd⟩
    · simp only [State.advance, State.hasTokens, State.kind, hk, bne_iff_ne.2 he, if_true]
      exact ⟨ht, ha, hn, hd⟩

theorem push {shape shape' : Shape} (span span' : Span) (h : s.Alike s')
    (hs : shape.skeleton = shape'.skeleton) :
    (s.push ⟨shape, span⟩).Alike (s'.push ⟨shape', span'⟩) where
  current := h.current
  ahead := h.ahead
  nodes := h.nodes.push hs
  depth := h.depth

theorem leave (h : s.Alike s') : s.leave.Alike s'.leave where
  current := h.current
  ahead := h.ahead
  nodes := h.nodes
  depth := congrArg (· - 1) h.depth

theorem mark (h : s.Alike s') : s.mark.Alike s'.mark where
  current := h.current
  ahead := h.ahead
  nodeCount := h.nodes.size_eq
  depth := h.depth

theorem discard {m m' : Mark} (hm : m.Alike m') (h : s.Alike s') :
    (s.discard m).Alike (s'.discard m') where
  current := h.current
  ahead := h.ahead
  nodes := by
    unfold State.discard
    rw [hm.nodeCount]
    exact h.nodes.shrink m'.nodeCount
  depth := hm.depth

theorem reset {m m' : Mark} (hm : m.Alike m') (h : s.Alike s') :
    (s.reset m).Alike (s'.reset m') where
  current := hm.current
  ahead := hm.ahead
  nodes := (h.discard hm).nodes
  depth := hm.depth

end State.Alike

inductive Stop.Alike : Stop → Stop → Prop
  | error (h : e.Alike e') : Stop.Alike (.error e) (.error e')
  | missingNode : Stop.Alike (.missingNode i) (.missingNode i)
  | exhausted : Stop.Alike .exhausted .exhausted

/-- How two steps end, in the same way: where they yield values, these are related. -/
inductive Outcome.Alike (R : α → α → Prop) : Outcome α → Outcome α → Prop
  | done (ha : R a a') (hs : s.Alike s') : Outcome.Alike R (.done a s) (.done a' s')
  | stopped (hw : why.Alike why') (hs : s.Alike s') :
      Outcome.Alike R (.stopped why s) (.stopped why' s')

/-- Two steps that do the same from states that no step tells apart. -/
class Alike (R : outParam (α → α → Prop)) (step step' : Parse α) : Prop where
  outcome {setup setup' : Setup} {s s' : State} (hsetup : setup.Alike setup') (hs : s.Alike s') :
    (step setup s).Alike R (step' setup' s')

class Related (R : α → α → Prop) (a a' : α) : Prop where
  holds : R a a'

-- The search for instances drops hypotheses that its goal does not depend on, so values that are
-- bound together come with their relation.
structure Pair (R : α → α → Prop) where
  left : α
  right : α
  holds : R left right

instance {R : α → α → Prop} (pair : Pair R) : Related R pair.left pair.right := ⟨pair.holds⟩

def Any (_ _ : α) : Prop := True

theorem alike (step step' : Parse α) {R : α → α → Prop} [h : Alike R step step']
    {setup setup' : Setup} {s s' : State} (hsetup : setup.Alike setup') (hs : s.Alike s') :
    (step setup s).Alike R (step' setup' s') := h.outcome hsetup hs

/-! ## Steps -/

section
variable {R : α → α → Prop} {S : β → β → Prop} {step step' : Parse α}

theorem Outcome.Alike.mono {T : α → α → Prop} {outcome outcome' : Outcome α}
    (hr : ∀ a a', R a a' → T a a') (h : outcome.Alike R outcome') : outcome.Alike T outcome' := by
  cases h with
  | done ha hs => exact .done (hr _ _ ha) hs
  | stopped hw hs => exact .stopped hw hs

theorem Alike.mono {T : α → α → Prop} (hr : ∀ a a', R a a' → T a a') (h : Alike R step step') :
    Alike T step step' := ⟨fun hsetup hs => (h.outcome hsetup hs).mono hr⟩

theorem Alike.bind {next next' : α → Parse β} (h : Alike R step step')
    (hn : ∀ a a', R a a' → Alike S (next a) (next' a')) :
    Alike S (step >>= next) (step' >>= next') where
  outcome {setup setup' s s'} hsetup hs := by
    have ho := h.outcome hsetup hs
    change (Parse.bind step next setup s).Alike S (Parse.bind step' next' setup' s')
    unfold Parse.bind
    generalize step setup s = outcome, step' setup' s' = outcome' at ho
    cases ho with
    | done ha hs => exact (hn _ _ ha).outcome hsetup hs
    | stopped hw hs => exact .stopped hw hs

theorem alike_next {next next' : α → Parse β} [h : Alike R step step']
    (hn : ∀ a a', R a a' → Alike S (next a) (next' a')) :
    Alike S (step >>= next) (step' >>= next') := h.bind hn

theorem alike_nextEq {next next' : α → Parse β} [h : Alike Eq step step']
    (hn : ∀ a, Alike S (next a) (next' a)) : Alike S (step >>= next) (step' >>= next') :=
  h.bind fun a a' ha => by
    rw [ha]
    exact hn a'

theorem alike_pure {a a' : α} (h : R a a') : Alike R (pure a) (pure a') :=
  ⟨fun _ hs => .done h hs⟩

theorem alike_look {f f' : State → α} (h : ∀ {s s' : State}, s.Alike s' → R (f s) (f' s')) :
    Alike R (look f) (look f') := ⟨fun _ hs => .done (h hs) hs⟩

theorem alike_refuse {e e' : Error} (h : e.Alike e') : Alike R (refuse e) (refuse e') :=
  ⟨fun _ hs => .stopped (.error h) hs⟩

theorem alike_ite {c c' : Prop} [Decidable c] [Decidable c'] {other other' : Parse α}
    (hc : c ↔ c') (h : Alike R step step') (h' : Alike R other other') :
    Alike R (if c then step else other) (if c' then step' else other') := by
  by_cases hp : c
  · rw [if_pos hp, if_pos (hc.1 hp)]
    exact h
  · rw [if_neg hp, if_neg (mt hc.2 hp)]
    exact h'

instance {next next' : α → Parse β} [h : Alike R step step']
    [hn : ∀ pair : Pair R, Alike S (next pair.left) (next' pair.right)] :
    Alike S (step >>= next) (step' >>= next') := h.bind fun a a' ha => hn ⟨a, a', ha⟩

instance (priority := high) {next next' : α → Parse β} [h : Alike Eq step step']
    [hn : ∀ a, Alike S (next a) (next' a)] : Alike S (step >>= next) (step' >>= next') :=
  alike_nextEq hn

instance (a : α) : Alike Eq (pure a) (pure a) := alike_pure rfl

instance (f : α → β) [h : Alike Eq step step'] : Alike Eq (f <$> step) (f <$> step') :=
  h.bind fun _ _ ha => alike_pure (congrArg f ha)

instance [h : Related Error.Alike e e'] :
    Alike Eq (refuse e : Parse α) (refuse e') := alike_refuse h.holds

instance : Alike Eq (stop .exhausted : Parse α) (stop .exhausted) :=
  ⟨fun _ hs => .stopped .exhausted hs⟩

instance {c : Prop} [Decidable c] {other other' : Parse α} [h : Alike R step step']
    [h' : Alike R other other'] :
    Alike R (if c then step else other) (if c then step' else other') := alike_ite Iff.rfl h h'

instance : Alike Token.Alike advance advance := ⟨fun _ hs => .done hs.current hs.advance⟩

instance [h : Related (InvImage Eq Shape.skeleton) shape shape'] :
    Alike Eq (push shape span) (push shape' span') :=
  ⟨fun _ hs => .done hs.nodes.size_eq (hs.push span span' h.holds)⟩

instance : Alike Any (spanOf i) (spanOf i) where
  outcome {setup setup' s s'} _ hs := by
    have hn := congrArg (fun skeletons => skeletons[i]?.isSome) hs.nodes
    simp only [Array.getElem?_map, Option.isSome_map] at hn
    change (Parse.bind (node i) _ setup s).Alike Any (Parse.bind (node i) _ setup' s')
    unfold Parse.bind node
    cases h : s.nodes[i]? with
    | none =>
      rw [h] at hn
      rw [Option.isSome_eq_false_iff.1 hn.symm |> Option.isNone_iff_eq_none.1]
      exact .stopped .missingNode hs
    | some found =>
      rw [h] at hn
      obtain ⟨found', h'⟩ := Option.isSome_iff_exists.1 hn.symm
      rw [h']
      exact .done trivial hs

instance [h : Alike R step step'] :
    Alike R (inside delimiter construct opening step)
      (inside delimiter construct opening' step') where
  outcome {setup setup' s s'} hsetup hs := by
    have ho := h.outcome hsetup hs
    unfold inside mapError
    generalize step setup s = outcome, step' setup' s' = outcome' at ho
    cases ho with
    | done ha hs => exact .done ha hs
    | stopped hw hs =>
      cases hw with
      | error he => exact .stopped (.error (he.inside _ _ _ _)) hs
      | missingNode => exact .stopped .missingNode hs
      | exhausted => exact .stopped .exhausted hs

instance [h : Alike Eq step step'] : Alike Eq (attempt step) (attempt step') where
  outcome {setup setup' s s'} hsetup hs := by
    have ho := h.outcome hsetup hs
    unfold attempt
    generalize step setup s = outcome, step' setup' s' = outcome' at ho
    cases ho with
    | done ha hs => exact .done (congrArg some ha) hs
    | stopped hw hs =>
      cases hw with
      | error => exact .done rfl hs
      | missingNode => exact .stopped .missingNode hs
      | exhausted => exact .stopped .exhausted hs

inductive Turn.Alike (R : α → α → Prop) (S : β → β → Prop) : Turn α β → Turn α β → Prop
  | again (ha : R a a') : Turn.Alike R S (.again a) (.again a')
  | finish (hb : S b b') : Turn.Alike R S (.finish b) (.finish b')

theorem alike_iterate {turn turn' : α → Parse (Turn α β)}
    (h : ∀ a a', R a a' → Alike (Turn.Alike R S) (turn a) (turn' a')) (turns : Nat) {a a' : α}
    (ha : R a a') : Alike S (iterate turn turns a) (iterate turn' turns a') := by
  induction turns generalizing a a' with
  | zero => exact ⟨fun _ hs => .stopped .exhausted hs⟩
  | succ turns ih =>
    refine (h a a' ha).bind fun result result' hr => ?_
    cases hr with
    | again ha => exact ih ha
    | finish hb => exact alike_pure hb

theorem alike_loop {turn turn' : α → Parse (Turn α β)}
    (h : ∀ a a', R a a' → Alike (Turn.Alike R S) (turn a) (turn' a')) {a a' : α} (ha : R a a') :
    Alike S (loop turn a) (loop turn' a') := by
  have : Alike Eq (look State.remaining) (look State.remaining) :=
    alike_look State.Alike.remaining
  exact alike_nextEq fun remaining => alike_iterate h (remaining + 1) ha

theorem alike_collect {step step' : Parse (Option (α × Bool))}
    (h : Alike (Option.Rel fun x y => R x.1 y.1 ∧ x.2 = y.2) step step') :
    Alike (List.Forall₂ R) (collect step) (collect step') := by
  refine alike_loop (R := List.Forall₂ R) (fun items items' hi => ?_) .nil
  refine h.bind fun item item' hitem => ?_
  cases hitem with
  | none => exact alike_pure (.finish (List.rel_reverse hi))
  | @some item item' hitem =>
    obtain ⟨item, more⟩ := item
    obtain ⟨item', more'⟩ := item'
    obtain ⟨hr, rfl⟩ := hitem
    have hi := List.Forall₂.cons hr hi
    cases more with
    | true => exact alike_pure (.again hi)
    | false => exact alike_pure (.finish (List.rel_reverse hi))

instance {step step' : Parse (Option (α × Bool))} [h : Alike Eq step step'] :
    Alike Eq (collect step) (collect step') := by
  have hitem : Alike (Option.Rel fun x y => x.1 = y.1 ∧ x.2 = y.2) step step' := by
    refine h.mono ?_
    rintro item _ rfl
    cases item with
    | none => exact .none
    | some item => exact .some ⟨rfl, rfl⟩
  refine (alike_collect hitem).mono fun items items' hi => ?_
  rwa [List.forall₂_eq_eq_eq] at hi

theorem alike_nested (h : Alike R step step') : Alike R (nested step) (nested step') where
  outcome {setup setup' s s'} hsetup hs := by
    have hdeeper : s.deeper.Alike s'.deeper :=
      ⟨hs.current, hs.ahead, hs.nodes, congrArg (· + 1) hs.depth⟩
    have ho := h.outcome hsetup hdeeper
    rw [nested_apply, nested_apply, ← hs.depth, ← hsetup.maxDepth]
    by_cases hd : s.depth < setup.maxDepth
    · rw [if_pos hd, if_pos hd]
      generalize step setup s.deeper = outcome, step' setup' s'.deeper = outcome' at ho
      cases ho with
      | done ha hs => exact .done ha hs.leave
      | stopped hw hs =>
        cases hw with
        | error he => exact .stopped (.error he) hs.leave
        | missingNode => exact .stopped .missingNode hs
        | exhausted => exact .stopped .exhausted hs
    · rw [if_neg hd, if_neg hd]
      exact .stopped (.error ⟨rfl, rfl⟩) hs

instance [h : Alike R step step'] : Alike R (nested step) (nested step') := alike_nested h

end

/-! ## Tokens, errors and nodes -/

section

instance : Alike Token.Alike (look State.current) (look State.current) :=
  alike_look State.Alike.current

instance : Alike Eq (look State.kind) (look State.kind) := alike_look State.Alike.kind

instance : Alike Mark.Alike (look State.mark) (look State.mark) := alike_look State.Alike.mark

instance (n : Nat) : Alike Eq (look (·.peek n)) (look (·.peek n)) := alike_look fun h => h.peek n

instance : Alike Any (look (·.current.span)) (look (·.current.span)) := alike_look fun _ => trivial

instance : Alike Any (look (·.current.span.start)) (look (·.current.span.start)) :=
  alike_look fun _ => trivial

instance (start start' : Nat) : Alike Any (look (·.spanFrom start)) (look (·.spanFrom start')) :=
  alike_look fun _ => trivial

instance : Alike Eq (given Setup.table) (given Setup.table) :=
  ⟨fun hsetup hs => .done hsetup.table hs⟩

instance (kind : Token.Kind) : Alike Eq (isAt kind) (isAt kind) :=
  alike_look fun h => by rw [h.kind]

instance {sign sign' : Parse Bool} {step step' : Parse α} [Alike Eq sign sign']
    [Alike Eq step step'] : Alike Eq (optionally sign step) (optionally sign' step') := by
  unfold optionally; infer_instance

instance (kind : Token.Kind) : Alike Eq (eat kind) (eat kind) := by unfold eat; infer_instance

theorem alike_eatWord {word : String} (hw : word ∈ contextualWords) :
    Alike Eq (eatWord word) (eatWord word) := by
  have : Alike Eq (look (·.current.isWord word)) (look (·.current.isWord word)) :=
    alike_look (State.Alike.word hw)
  unfold eatWord; infer_instance

instance : Alike Eq (eatWord "module") (eatWord "module") := alike_eatWord (by decide)

instance : Alike Eq (eatWord "else") (eatWord "else") := alike_eatWord (by decide)

instance : Alike Eq (eatWord "default") (eatWord "default") := alike_eatWord (by decide)

theorem alike_errorAt {cause cause' : Cause} (span span' : Span) (expected : List Expected)
    (h : cause.skeleton = cause'.skeleton) :
    Alike Error.Alike (errorAt cause span expected) (errorAt cause' span' expected) :=
  ⟨fun _ hs => .done ⟨h, rfl⟩ hs⟩

instance (cause : Cause) (span span' : Span) (expected : List Expected) :
    Alike Error.Alike (errorAt cause span expected) (errorAt cause span' expected) :=
  alike_errorAt span span' expected rfl

instance (expected : List Expected) (note : Option String) :
    Alike Error.Alike (unexpected expected note) (unexpected expected note) := by
  refine alike_next fun token token' ht => ?_
  apply alike_errorAt
  rw [ht.kind]
  split <;> rfl

instance (expected : Expected) :
    Alike Error.Alike (misplaced expected) (misplaced expected) := by
  refine alike_next fun token token' ht => ?_
  refine alike_ite ?_ (alike_errorAt _ _ _ rfl) inferInstance
  rw [ht.kind]

instance (kind : Token.Kind) {error error' : Parse Error} [h : Alike Error.Alike error error'] :
    Alike Token.Alike (expectOr kind error) (expectOr kind error') := by
  refine alike_nextEq fun found => ?_
  exact alike_ite Iff.rfl inferInstance (h.bind fun _ _ he => alike_refuse he)

instance (kind : Token.Kind) : Alike Token.Alike (expect kind) (expect kind) := by
  unfold expect; infer_instance

instance (start start' : Nat) (shape shape' : Shape)
    [Related (InvImage Eq Shape.skeleton) shape shape'] :
    Alike Eq (pushFrom start shape) (pushFrom start' shape') := by
  unfold pushFrom; infer_instance

/-! ## Names and lists -/

instance : Alike (InvImage Eq Name.skeleton) name name := by
  refine alike_next fun token token' ht => ?_
  refine alike_ite (by rw [ht.isName]) ?_ ?_
  · refine alike_next fun _ _ _ => alike_pure ?_
    simp [InvImage, Name.skeleton, ht.kind]
  · exact alike_next fun _ _ he => alike_refuse he

instance : Alike (InvImage Eq Path.skeleton) path path := by
  refine alike_next fun first first' hf => ?_
  refine Alike.bind (R := List.Forall₂ (InvImage Eq Name.skeleton)) ?_ fun more more' hm => ?_
  · refine alike_collect (alike_nextEq fun found => ?_)
    refine alike_ite Iff.rfl ?_ (alike_pure .none)
    exact alike_next fun more more' hm => alike_pure (.some ⟨hm, rfl⟩)
  · refine alike_next fun span span' _ => alike_pure ?_
    have hf : first.skeleton = first'.skeleton := hf
    have hm : more.map Name.skeleton = more'.map Name.skeleton := by
      rw [← List.forall₂_eq_eq_eq, List.forall₂_map_left_iff, List.forall₂_map_right_iff]
      exact hm
    simp [InvImage, Path.skeleton, hf, hm]

instance (close : Token.Kind) {element element' : Parse NodeId} [Alike Eq element element'] :
    Alike Eq (delimited close element) (delimited close element') := by
  unfold delimited; infer_instance

instance {item item' : Parse NodeId} [Alike Eq item item'] :
    Alike Eq (bracedItems item) (bracedItems item') := by
  have : Alike Eq (look fun s => s.hasTokens && s.kind != .closeCurly)
      (look fun s => s.hasTokens && s.kind != .closeCurly) :=
    alike_look fun h => by rw [h.hasTokens, h.kind]
  unfold bracedItems; infer_instance

end

end Parse
end Smaug
