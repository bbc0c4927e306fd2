import Mathlib
import Smaug.Proofs.Parse.Listed
import Smaug.Proofs.Tree.OperatorChain

/-! # Chains that are read

The loop over suffixes reads a chain from left to right, with a loop inside for the right operand of
each operator.  Whatever power a loop was started at, what it has read groups as that part of the
chain does by itself, and it leaves the rest.
-/

namespace Smaug

namespace Atom

def content (atom : Atom) : Token.Kind × String := (atom.kind, atom.value)

theorem kind_cases (atom : Atom) : atom.kind = .identifier ∨ atom.kind = .builtIn ∨
    atom.kind = .string ∨ atom.kind = .integer := by
  simpa using atom.isOperand

theorem operands_kind (atom : Atom) : Table.operands atom.kind = some .primary := by
  rcases atom.kind_cases with h | h | h | h <;> rw [h] <;> rfl

theorem kind_ne_eof (atom : Atom) : atom.kind ≠ .eof := by
  rcases atom.kind_cases with h | h | h | h <;> simp [h]

end Atom

namespace BinaryOp

theorem ofKind?_kind (op : BinaryOp) : ofKind? op.kind = some op := by cases op <;> rfl

theorem kind_ne_eof (op : BinaryOp) : op.kind ≠ .eof := by cases op <;> simp [kind]

end BinaryOp

namespace OperatorChain

def contents (chain : OperatorChain) : List (Token.Kind × String) :=
  chain.flatMap fun entry => [(entry.1.kind, entry.1.symbol), entry.2.content]

theorem binds_lowest (entry : BinaryOp × Atom) : binds .lowest entry := by
  obtain ⟨op, atom⟩ := entry
  cases op <;> rfl

theorem above_lowest (chain : OperatorChain) : above .lowest chain = chain :=
  List.takeWhile_eq_self_iff.2 fun entry _ => binds_lowest entry

theorem below_lowest (chain : OperatorChain) : below .lowest chain = [] :=
  List.dropWhile_eq_nil_iff.2 fun entry _ => binds_lowest entry

def texts (chain : OperatorChain) : List String :=
  chain.flatMap fun entry => [entry.1.symbol, entry.2.text]

end OperatorChain

namespace Parse

open Grammar OperatorChain

def State.contents (s : State) : List (Token.Kind × String) := s.tokens.map Token.content

/-- A grouping was read, up to where the tokens say `rest`. -/
structure Grouped (s : State) (rest : List (Token.Kind × String)) (grouping : Grouping)
    (id : NodeId) (s' : State) : Prop where
  contents : s'.contents = rest
  depth : s'.depth = s.depth
  nodes {i : NodeId} {node : Node} : s.nodes[i]? = some node → s'.nodes[i]? = some node
  root : grouping.IsAt s'.nodes id

section
variable {setup : Setup} {s : State} {rest : List (Token.Kind × String)}

theorem State.kind_of_contents {content : Token.Kind × String}
    (h : s.contents = content :: rest) : s.kind = content.1 := by
  have hc : s.current.content = content := (List.cons_eq_cons.1 h).1
  exact congrArg Prod.fst hc

theorem State.advance_of_contents {content : Token.Kind × String}
    (h : s.contents = content :: rest) (hk : content.1 ≠ .eof) (hr : rest ≠ []) :
    s.advance.contents = rest ∧ s.advance.depth = s.depth := by
  obtain ⟨hc, ha⟩ : s.current.content = content ∧ s.ahead.map Token.content = rest :=
    List.cons_eq_cons.1 h
  have ht : s.hasTokens := State.hasTokens_of_ne (by rwa [← hc] at hk)
  have hne : s.ahead ≠ [] := by
    rintro hn
    simp [hn] at ha
    exact hr ha
  obtain ⟨htokens, hdepth⟩ := State.advance_of_ahead ht hne
  exact ⟨by rw [State.contents, htokens, ha], hdepth⟩

/-! ## One operand -/

/-- An atom is read to its node. -/
theorem primary_atom (atom : Atom) (h : s.contents = atom.content :: rest) :
    primary setup s =
      .done s.nodes.size (s.advance.push ⟨atom.shape s.current.span, s.current.span⟩) := by
  have hc : s.current.content = atom.content := (List.cons_eq_cons.1 h).1
  have hk : s.current.kind = atom.kind := congrArg Prod.fst hc
  have hv : s.current.value = atom.value := congrArg Prod.snd hc
  have hnodes : s.nodes.size = s.advance.nodes.size := by rw [State.advance_nodes]
  have hname (hn : s.current.isName)
      (hs : atom.shape s.current.span = .identifier (.single s.name)) :
      (name >>= fun n => push (.identifier (.single n)) n.span) setup s =
        .done s.nodes.size (s.advance.push ⟨atom.shape s.current.span, s.current.span⟩) :=
    bind_done.2 ⟨_, _, name_done.2 ⟨hn, rfl, rfl⟩, push_done.2 ⟨hnodes, by rw [hs]; rfl⟩⟩
  refine bind_done.2 ⟨_, _, look_done.2 ⟨rfl, rfl⟩, ?_⟩
  rcases atom.kind_cases with ha | ha | ha | ha <;> simp only [hk, ha]
  · exact hname (by simp [Token.isName, hk, ha]) (by simp [Atom.shape, ha, State.name, hk, hv])
  · exact hname (by simp [Token.isName, hk, ha]) (by simp [Atom.shape, ha, State.name, hk, hv])
  · refine bind_done.2 ⟨_, _, advance_done.2 ⟨rfl, rfl⟩, push_done.2 ⟨hnodes, ?_⟩⟩
    simp only [Atom.shape, ha, hv]
  · obtain ⟨value, hvalue⟩ := Option.isSome_iff_exists.1 (atom.bounded ha)
    simp only [hv, hvalue]
    refine bind_done.2 ⟨_, _, advance_done.2 ⟨rfl, rfl⟩, push_done.2 ⟨hnodes, ?_⟩⟩
    simp only [Atom.shape, ha, hvalue, Option.getD_some]

/-- An atom is read as an operand. -/
theorem operand_yields (ht : setup.table = .standard) (atom : Atom)
    (h : s.contents = atom.content :: rest) (hr : rest ≠ []) (n : Nat) :
    (operand (Rule.runWith n) setup s).Yields (Grouped s rest (.operand atom)) := by
  have hk : s.kind = atom.kind := State.kind_of_contents h
  have hf : setup.table.operand s.kind = some .primary := by
    rw [ht, hk]
    exact atom.operands_kind
  have hoperand : operand (Rule.runWith n) setup s = Rule.runWith n (.form .primary) setup s := by
    simp only [operand, Bind.bind, Parse.bind, given, look, hf]
  rw [hoperand]
  cases n with
  | zero => exact .exhausted
  | succ n =>
    obtain ⟨hcontents, hdepth⟩ := State.advance_of_contents h atom.kind_ne_eof hr
    have hprimary : Rule.runWith (n + 1) (.form .primary) setup s = _ := primary_atom atom h
    rw [hprimary]
    refine .done ⟨hcontents, hdepth, fun hn => ?_, s.current.span, ?_⟩
    · exact getElem?_push_of_some (by rwa [State.advance_nodes])
    · have hnodes : s.nodes.size = s.advance.nodes.size := by rw [State.advance_nodes]
      rw [hnodes]
      exact Array.getElem?_push_size

/-! ## Chains -/

theorem spanOf_yields {grouping : Grouping} {id : NodeId}
    (h : grouping.IsAt s.nodes id) :
    (spanOf id setup s).Yields fun _ s' => s' = s := by
  obtain ⟨node, hn⟩ := h.exists_node
  have hspan : spanOf id setup s = .done node.span s := spanOf_done.2 ⟨node, hn, rfl, rfl⟩
  rw [hspan]
  exact .done rfl

/-- An operator and its right operand become one operation with what was read before. -/
theorem binary_yields {op : BinaryOp} {left : NodeId} {first last : Grouping} {power : Power}
    {n : Nat} (hk : s.kind = op.kind) (hd : s.advance.depth = s.depth)
    (hl : first.IsAt s.nodes left)
    (hr : (Rule.runWith n (.expression power) setup s.advance).Yields
      (Grouped s.advance rest last)) :
    (binary (Rule.runWith n) left power setup s).Yields
      (Grouped s rest (.operation op first last)) := by
  refine bind_yields (P := fun kind s' => kind = s.kind ∧ s' = s) (.done ⟨rfl, rfl⟩) ?_
  rintro _ s ⟨rfl, rfl⟩
  simp only [hk, BinaryOp.ofKind?_kind]
  refine bind_yields (P := fun _ s' => s' = s.advance) (.done rfl) ?_
  rintro _ _ rfl
  refine bind_yields hr ?_
  intro right s₁ h
  have hnodes {i : NodeId} {node : Node} (hn : s.nodes[i]? = some node) :
      s₁.nodes[i]? = some node := h.nodes (by rwa [State.advance_nodes])
  have hl₁ : first.IsAt s₁.nodes left := hl.mono hnodes
  refine bind_yields (spanOf_yields hl₁) ?_
  rintro _ _ rfl
  refine bind_yields (spanOf_yields h.root) ?_
  rintro _ s₁ rfl
  exact .done ⟨h.contents, h.depth.trans hd, fun hn => getElem?_push_of_some (hnodes hn),
    left, right, _, Array.getElem?_push_size, hl₁.mono getElem?_push_of_some,
    h.root.mono getElem?_push_of_some⟩

/-- What comes after a grouping is read behind it. -/
theorem Grouped.trans {s₁ s' : State} {rest' : List (Token.Kind × String)}
    {grouping grouping' : Grouping} {left id : NodeId} (h : Grouped s rest grouping left s₁)
    (h' : Grouped s₁ rest' grouping' id s') : Grouped s rest' grouping' id s' where
  contents := h'.contents
  depth := h'.depth.trans h.depth
  nodes hn := h'.nodes (h.nodes hn)
  root := h'.root

theorem suffix_kind (ht : setup.table = .standard) {op : BinaryOp} (hk : s.kind = op.kind) :
    setup.table.suffix s.kind = some (op.tier, .binary) := by
  rw [ht, hk]
  exact suffixes_kind op

/-- An operator that binds more tightly than `power` is taken. -/
theorem suffixTurn_yields (ht : setup.table = .standard) {op : BinaryOp} (hk : s.kind = op.kind)
    {power : Power} (hp : op.tier.tighter power) {left : NodeId} {P : NodeId → State → Prop}
    (h : ∀ n, (binary (Rule.runWith n) left op.tier setup s).Yields P) (n : Nat) :
    (suffixTurn (Rule.runWith n) power left setup s).Yields fun turn s' =>
      ∃ id, turn = .again id ∧ P id s' := by
  have hf := suffix_kind ht hk
  refine bind_yields (P := fun table s' => table = setup.table ∧ s' = s) (.done ⟨rfl, rfl⟩) ?_
  rintro _ s ⟨rfl, rfl⟩
  refine bind_yields (P := fun kind s' => kind = s.kind ∧ s' = s) (.done ⟨rfl, rfl⟩) ?_
  rintro _ s ⟨rfl, rfl⟩
  simp only [hf, hp, if_true]
  cases n with
  | zero => exact .exhausted
  | succ n =>
    refine bind_yields (h n) fun id s' hid => ?_
    exact .done ⟨id, rfl, hid⟩

theorem suffixTurn_finish (run : Rule → Parse NodeId) (ht : setup.table = .standard)
    {op : BinaryOp} (hk : s.kind = op.kind) {power : Power} (hp : ¬op.tier.tighter power)
    (left : NodeId) : suffixTurn run power left setup s = .done (.finish left) s := by
  have hf := suffix_kind ht hk
  exact suffixTurn_loose run (by simpa [hf] using hp) left

/-- An expression is an operand and what the loop behind it makes of that. -/
theorem expression_yields (ht : setup.table = .standard) {atom : Atom} {power : Power}
    {contents : List (Token.Kind × String)} {grouping : Grouping}
    (hs : s.contents = atom.content :: contents) (hc : contents ≠ [])
    (hd : s.depth < setup.maxDepth)
    (hloop : ∀ (n turns : Nat) {left : NodeId} {s₁ : State}, s₁.contents = contents →
      s₁.depth = s.depth + 1 → (Grouping.operand atom).IsAt s₁.nodes left →
      (iterate (suffixTurn (Rule.runWith n) power) turns left setup s₁).Yields
        (Grouped s₁ rest grouping)) (n : Nat) :
    (Rule.runWith n (.expression power) setup s).Yields (Grouped s rest grouping) := by
  cases n with
  | zero => exact .exhausted
  | succ n =>
    refine nested_yields hd (bind_yields (operand_yields (s := s.deeper) ht atom hs hc n) ?_)
    intro left s₁ h₁
    cases n with
    | zero => exact .exhausted
    | succ n =>
      refine (hloop n (s₁.remaining + 1) h₁.contents h₁.depth h₁.root).mono fun id s' h => ?_
      have hdepth : s'.depth = s.depth + 1 := (h₁.trans h).depth
      exact ⟨h.contents, by simp [State.leave, hdepth], (h₁.trans h).nodes, h.root⟩

/-- The operators that bind more tightly than `power` group around what was read before, as long
as there is a level of nesting for each tier. -/
theorem suffixes_yield (ht : setup.table = .standard) {stop : Token.Kind × String}
    (hstop : stop.1 = .eof) (chain : OperatorChain) (n turns : Nat) (power : Power) {left : NodeId}
    {first : Grouping} (hs : s.contents = chain.contents ++ [stop])
    (hl : first.IsAt s.nodes left)
    (hd : s.depth + (Power.primary.rank - power.rank) ≤ setup.maxDepth) :
    (iterate (suffixTurn (Rule.runWith n) power) turns left setup s).Yields
      (Grouped s ((chain.below power).contents ++ [stop]) (group first (chain.above power))) := by
  -- By induction on the chain: the loop inside starts behind the first operand, and the loop goes
  -- on where that one has ended.
  induction hlength : chain.length using Nat.strong_induction_on
    generalizing chain n turns power left first s with
  | _ length ih =>
    cases turns with
    | zero => exact .exhausted
    | succ turns =>
      cases chain with
      | nil =>
        have hk : s.kind = .eof := (State.kind_of_contents hs).trans hstop
        have hends : s.kind.endsConstruct := hk ▸ rfl
        rw [iterate, bind_done.2 ⟨_, _, suffixTurn_closing _ ht hends power left, rfl⟩]
        refine .done ⟨hs, rfl, id, ?_⟩
        rw [show above power [] = [] from rfl, group_nil]
        exact hl
      | cons entry chain =>
        obtain ⟨op, atom⟩ := entry
        have hk : s.kind = op.kind := State.kind_of_contents hs
        by_cases hb : binds power (op, atom)
        · have hlt : power.rank < op.tier.rank := binds_iff.1 hb
          have hprimary := op.tier.rank_le_primary
          have hshorter : chain.length < length := by
            rw [← hlength]
            exact Nat.lt_succ_self _
          obtain ⟨hcontents, hdepth⟩ := State.advance_of_contents hs op.kind_ne_eof
            (List.cons_ne_nil _ _)
          have hright (n : Nat) : (Rule.runWith n (.expression op.tier) setup s.advance).Yields
              (Grouped s.advance ((below op.tier chain).contents ++ [stop])
                (group (.operand atom) (above op.tier chain))) := by
            refine expression_yields ht hcontents (by simp) (by omega) ?_ n
            intro n turns left s₁ hs₁ hd₁ hl₁
            exact ih _ hshorter chain n turns op.tier hs₁ hl₁ (by omega) rfl
          refine bind_yields (suffixTurn_yields ht hk hb
            (fun n => binary_yields hk hdepth hl (hright n)) n) ?_
          rintro _ s₁ ⟨id, rfl, h₁⟩
          rw [group_above chain first hb, below_cons chain hb]
          have hbelow := length_below_le op.tier chain
          refine (ih _ (Nat.lt_of_le_of_lt hbelow hshorter) _ n turns power h₁.contents h₁.root
            (by rw [h₁.depth]; exact hd) rfl).mono fun id s' h => h₁.trans h
        · rw [iterate, bind_done.2 ⟨_, _, suffixTurn_finish _ ht hk hb left, rfl⟩]
          refine .done ⟨?_, rfl, id, ?_⟩
          · rw [below, List.dropWhile_cons_of_neg hb]
            exact hs
          · rw [above, List.takeWhile_cons_of_neg hb, group_nil]
            exact hl

def Returns (grouping : Grouping) (id : NodeId) (s : State) : Prop :=
  s.kind = .eof ∧ ∃ value span, s.nodes[id]? = some ⟨.returnStatement value, span⟩ ∧
    grouping.IsAt s.nodes value

theorem returned_chain (ht : setup.table = .standard) (hdepth : s.depth = 0)
    (hmax : 17 ≤ setup.maxDepth) (first : Atom) (chain : OperatorChain)
    {stop : Token.Kind × String} (hstop : stop.1 = .eof)
    (hs : s.contents = (.returnWord, "return") :: first.content :: (chain.contents ++ [stop]))
    (n : Nat) :
    (Rule.runWith (n + 2) (.form .statement) setup s).Yields
      (Returns (group (.operand first) chain)) := by
  have hk : s.kind = .returnWord := State.kind_of_contents hs
  obtain ⟨hcontents, hd⟩ := State.advance_of_contents hs (by simp) (List.cons_ne_nil _ _)
  rw [returnStatement_eq ht hk]
  refine bind_yields (P := fun _ s' => s' = s.advance) (.done rfl) ?_
  rintro _ _ rfl
  have hvalue : (Rule.runWith n (.expression .lowest) setup s.advance).Yields
      (Grouped s.advance [stop] (group (.operand first) chain)) := by
    refine expression_yields ht hcontents (by simp) (by omega) ?_ n
    intro n turns left s₁ hs₁ hd₁ hl₁
    have h := suffixes_yield ht hstop chain n turns .lowest hs₁ hl₁
      (by rw [hd₁, hd, hdepth]; exact hmax)
    rwa [below_lowest, above_lowest] at h
  refine bind_yields hvalue ?_
  intro value s₁ h₁
  have hk₁ : s₁.kind = .eof := (State.kind_of_contents h₁.contents).trans hstop
  exact .done ⟨hk₁, value, _, Array.getElem?_push_size, h₁.root.mono getElem?_push_of_some⟩

end

end Parse

open Parse OperatorChain

/-- A module without errors is one `return` of operators and operands that are grouped so. -/
structure Parsed.Returns (grouping : Grouping) (parsed : Parsed) : Prop where
  errors : parsed.errors = []
  header : parsed.tree.header = none
  root : ∃ id value span, parsed.tree.statements = [id] ∧
    parsed.tree.get? id = some ⟨.returnStatement value, span⟩ ∧
    grouping.IsAt parsed.tree.nodes value

theorem Parsed.ofTokens_chain (first : Atom) (chain : OperatorChain) {tokens : Tokens}
    {stop : Token.Kind × String} (hstop : stop.1 = .eof)
    (ht : tokens.tokens.map Token.content =
      (.returnWord, "return") :: first.content :: (chain.contents ++ [stop])) (file : String) :
    Returns (group (.operand first) chain) (ofTokens tokens file {}) := by
  have hended : State.ended tokens.tokens = tokens.tokens := by
    obtain ⟨front, last, hl, -, hlast⟩ := List.map_eq_append_iff.1
      (show tokens.tokens.map Token.content =
        ((.returnWord, "return") :: first.content :: chain.contents) ++ [stop] from ht)
    obtain ⟨last, rfl, hcontent⟩ := List.map_eq_singleton_iff.1 hlast
    rw [hl]
    exact State.ended_of_eof ((congrArg Prod.fst hcontent).trans hstop) front
  have hs : (State.start tokens.tokens).contents = tokens.tokens.map Token.content := by
    rw [State.contents, State.start_tokens, hended]
  have hyields (n : Nat) : (Rule.runWith (n + 6) (.form .statement) (.standard file {})
      (State.start tokens.tokens)).Yields (Parse.Returns (group (.operand first) chain)) :=
    returned_chain rfl (State.start_depth _) (show 17 ≤ 256 by decide) first chain hstop
      (hs.trans ht) (n + 4)
  obtain ⟨id, s, ⟨-, value, span, hid, hvalue⟩, hparsed⟩ := ofTokens_of_yields hyields
    (State.hasTokens_of_kind (State.kind_of_contents (hs.trans ht)) (by decide))
    (fun id s h => by simp [State.hasTokens, h.1])
  rw [hparsed]
  exact ⟨rfl, rfl, id, value, span, rfl, hid, hvalue⟩

/-! ## Chains in a source -/

theorem BinaryOp.spells (op : BinaryOp) :
    Token.Spells ⟨op.kind, op.symbol, default⟩ op.symbol.toList := by
  cases op <;> exact ⟨_, _, rfl, by decide⟩

theorem Token.spells_return : Token.Spells ⟨.returnWord, "return", default⟩ "return".toList :=
  ⟨_, _, rfl, by decide⟩

theorem OperatorChain.spells (chain : OperatorChain) :
    List.Forall₂ (fun token text => Token.Spells token text.toList)
      (chain.contents.map fun content => ⟨content.1, content.2, default⟩) chain.texts := by
  induction chain with
  | nil => exact .nil
  | cons entry chain ih => exact .cons entry.1.spells (.cons entry.2.spells ih)

/-- Operands by themselves and operators behind a `return` group by the tiers of the operators, in
a list of tokens and as they are written with blanks between them. -/
theorem Parsed.return_grouped (first : Atom) (chain : OperatorChain) (file : String) :
    (∀ (tokens : Tokens) (stop : Token.Kind × String), stop.1 = .eof →
      tokens.tokens.map Token.content =
        (.returnWord, "return") :: first.content :: (chain.contents ++ [stop]) →
      Returns (group (.operand first) chain) (ofTokens tokens file {})) ∧
    ∀ source, Spaced ("return" :: first.text :: chain.texts) source →
      source.utf8ByteSize ≤ Options.byteLimit {} →
      Returns (group (.operand first) chain) (ofSource source file {}) := by
  refine ⟨fun tokens stop hstop ht => ofTokens_chain first chain hstop ht file, ?_⟩
  intro source hs hsize
  have hspells : List.Forall₂ (fun token text => Token.Spells token text.toList)
      (⟨.returnWord, "return", default⟩ :: ⟨first.kind, first.value, default⟩ ::
        chain.contents.map fun content => ⟨content.1, content.2, default⟩)
      ("return" :: first.text :: chain.texts) :=
    .cons Token.spells_return (.cons first.spells chain.spells)
  obtain ⟨again, hcontent, hl⟩ := Lexed.spaced hspells hs 0
  have hlimit : Options.byteLimit {} = Span.maxOffset := Nat.min_self _
  obtain ⟨trivia, ht⟩ := Tokens.ofSource_of_lexed hl (hlimit ▸ hsize) file
  rw [ofSource_eq_ofTokens ht]
  have hstop : ((.eof, "EOF") : Token.Kind × String).1 = .eof := rfl
  refine ofTokens_chain first chain hstop ?_ file
  rw [List.map_append, hcontent]
  simp [Token.content, Atom.content, Token.endAt, Function.comp_def]

set_option maxRecDepth 20000 in
theorem Parsed.return_grouped_mixed :
    let a : Atom := ⟨.identifier, "a", "a", by simp, nofun, ⟨_, _, rfl, by cbv⟩⟩
    let text : Atom := ⟨.string, "\n", "\"\\n\"", by simp, nofun, ⟨_, _, rfl, by cbv⟩⟩
    let number : Atom := ⟨.integer, "1_0", "1_0", by simp, fun _ => by cbv, ⟨_, _, rfl, by cbv⟩⟩
    let chain : OperatorChain := [(.logicalAnd, text), (.logicalOr, number)]
    let tokens : Tokens := ⟨[⟨.returnWord, "return", default⟩, ⟨.identifier, "a", default⟩,
      ⟨.and, "&&", default⟩, ⟨.string, "\n", default⟩, ⟨.or, "||", default⟩,
      ⟨.integer, "1_0", default⟩, .endAt default], #[]⟩
    group (.operand a) chain = .operation .logicalAnd (.operand a)
        (.operation .logicalOr (.operand text) (.operand number)) ∧
      Returns (group (.operand a) chain) (ofTokens tokens "chain.sm" {}) ∧
      Returns (group (.operand a) chain)
        (ofSource "return a && \"\\n\" || 1_0" "chain.sm" {}) := by
  intro a text number chain tokens
  have hgap : ∀ w ∈ " ".toList, Text.isBlank w := List.all_eq_true.1 (by decide)
  have hspaced : Spaced ("return" :: a.text :: chain.texts) "return a && \"\\n\" || 1_0" := by
    rw [show "return a && \"\\n\" || 1_0" = "return" ++ " " ++ ("a" ++ " " ++ ("&&" ++ " " ++
      ("\"\\n\"" ++ " " ++ ("||" ++ " " ++ "1_0")))) by decide]
    exact .cons (by decide) hgap <| .cons (by decide) hgap <| .cons (by decide) hgap <|
      .cons (by decide) hgap <| .cons (by decide) hgap <| .single _
  refine ⟨?_, (return_grouped a chain "chain.sm").1 tokens (.eof, "EOF") rfl rfl,
    (return_grouped a chain "chain.sm").2 _ hspaced ?_⟩
  · simp [chain, group, splitWeakest, BinaryOp.tier, Power.rank]
  · rw [show Options.byteLimit {} = Span.maxOffset from Nat.min_self _]
    decide

end Smaug
