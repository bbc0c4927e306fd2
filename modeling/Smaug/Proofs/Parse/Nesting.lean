import Mathlib
import Smaug.Proofs.Parse.Lossless
import Smaug.Proofs.Parse.Sorts
import Smaug.Proofs.Tree.Nesting

/-! # How deep brackets nest

Only expressions and patterns are counted as levels of nesting.  Between one such level and the next
there are at most two pairs of brackets, if those do not count that stand as a statement, as the
body of one or as the list under attributes: these may nest in each other at one level.
-/

namespace Smaug

namespace Parse

open Grammar

/-- The brackets that may nest in what is read from a state on: two pairs for each level left. -/
def State.room (maxDepth : Nat) (s : State) : Nat := 2 * (maxDepth - s.depth)

def Nests (maxDepth : Nat) : Meaning := fun rule s id s' =>
  match rule with
  | .expression _ | .pattern .any _ =>
    NestedPart s'.nodes Role.isNested (s.room maxDepth) .operand id
  | .tuple _ | .form .array | .pattern .tuple _ =>
    Nested s'.nodes Role.isNested (s.room maxDepth) id
  | .continuation left _ | .suffix _ left _ => ∀ k, s.room maxDepth + 1 ≤ k →
    NestedPart s.nodes Role.isNested k .operand left →
      NestedPart s'.nodes Role.isNested k .operand id
  | _ => Nested s'.nodes Role.isNested (s.room maxDepth + 1) id

abbrev NestsKept (maxDepth : Nat) : Meaning := fun rule s id s' =>
  Kept s s' ∧ Nests maxDepth rule s id s'

variable {maxDepth : Nat} {s s₁ s' : State} {id : NodeId}

theorem State.room_of_kept (h : Kept s s') : s'.room maxDepth = s.room maxDepth := by
  rw [State.room, State.room, h.depth]

/-- A level of nesting takes the room of two pairs of brackets. -/
theorem State.room_deeper (h : s.depth < maxDepth) :
    s.deeper.room maxDepth + 2 = s.room maxDepth := by
  simp only [State.room, State.deeper]
  omega

theorem State.room_deeper_le (s : State) : s.deeper.room maxDepth ≤ s.room maxDepth := by
  simp only [State.room, State.deeper]
  omega

/-- No rule yields a node that nests deeper by more than one pair of brackets. -/
theorem Nests.nested {rule : Rule} (h : Nests maxDepth rule s id s') (hl : rule.left = []) :
    Nested s'.nodes Role.isNested (s.room maxDepth + 1) id := by
  unfold Nests at h
  split at h
  · exact h.toNested.mono (Nat.le_succ _)
  · exact h.toNested.mono (Nat.le_succ _)
  · exact h.mono (Nat.le_succ _)
  · exact h.mono (Nat.le_succ _)
  · exact h.mono (Nat.le_succ _)
  · cases hl
  · cases hl
  · exact h

/-- A part that is read by a rule for its role nests no deeper by more than one pair of brackets. -/
theorem Nests.part {rule : Rule} {role : Role} (h : Nests maxDepth rule s id s')
    (hq : role.reads rule) :
    NestedPart s'.nodes Role.isNested (s.room maxDepth + 1) role id := by
  by_cases hr : role.isNested
  · unfold Role.reads at hq
    split at hq <;> try cases hr
    · exact NestedPart.mono h (Nat.le_succ _)
    · exact .of_nested h
    · exact .of_nested h
    · exact .of_nested h
    · exact .of_counts (show Role.isNested .operand = _ from rfl) (h.mono (Nat.le_succ _))
    · exact .of_counts (show Role.isNested .operand = _ from rfl) (h.mono (Nat.le_succ _))
    · cases hq
  · exact .of_brackets (brackets_of_not_counts (by simpa using hr))
      (h.nested (Role.left_of_reads hq))

/-- A part that no rule reads by itself has no brackets that count. -/
theorem isNested_of_reads {role : Role} (hq : ∀ rule, role.reads rule = false) :
    role.isNested = false := by
  cases role with
  | operand => cases hq (.expression .lowest)
  | tuple => cases hq (.tuple "")
  | array => cases hq (.form .array)
  | arguments => cases hq (.pattern .tuple true)
  | pattern | element => cases hq (.pattern .any true)
  | _ => rfl

/-- A node whose parts have been read nests as deep as they do. -/
theorem nested_push {shape : Shape} {k : Nat} (span : Span)
    (h : ∀ role i, .node role i ∈ shape.parts → NestedPart s.nodes Role.isNested k role i) :
    Nested (s.push ⟨shape, span⟩).nodes Role.isNested k s.nodes.size :=
  .of_parts Array.getElem?_push_size fun role i hi => (h role i hi).grow getElem?_push_of_some

/-- No part of a construct nests deeper than its level allows by more than one pair of brackets. -/
theorem nests_of_laid {parts : List Part} (h : Laid (NestsKept maxDepth) s parts s') :
    Kept s s' ∧ ∀ role i, .node role i ∈ parts →
      NestedPart s'.nodes Role.isNested (s.room maxDepth + 1) role i := by
  induction h with
  | token => exact ⟨.advance _, by simp⟩
  | name => exact ⟨.advance _, by simp⟩
  | rule hr hq => exact ⟨hr.1, by simpa using hr.2.part hq⟩
  | @taken s left s₁ i s' ho hc =>
    obtain ⟨hk, hc⟩ := hc
    refine ⟨ho.1.trans hk, ?_⟩
    have hroom : s₁.room maxDepth = s.room maxDepth := State.room_of_kept ho.1
    have ho : NestedPart s₁.nodes Role.isNested (s.room maxDepth) .operand left := ho.2
    simpa [hroom] using hc (s.room maxDepth + 1) (by rw [hroom]) (ho.mono (Nat.le_succ _))
  | built role shape hp hq _ ih =>
    obtain ⟨hk, h⟩ := ih
    refine ⟨hk.trans (.push _ _), ?_⟩
    simpa using NestedPart.of_brackets (brackets_of_not_counts (isNested_of_reads hq))
      (nested_push _ h)
  | next _ _ ih ih' =>
    obtain ⟨hk, h⟩ := ih
    obtain ⟨hk', h'⟩ := ih'
    refine ⟨hk.trans hk', fun role i hi => ?_⟩
    rcases List.mem_append.1 hi with hi | hi
    · exact (h role i hi).grow hk'.toGrown.getElem?
    · exact State.room_of_kept hk ▸ h' role i hi

/-- A construct nests deeper than what is read at its level by at most one pair of brackets. -/
theorem nests_of_constructs {rule : Rule} (h : Constructs (NestsKept maxDepth) rule s id s')
    (hl : rule.left = []) (he : ∀ power, rule ≠ .expression power) :
    Nested s'.nodes Role.isNested (s.room maxDepth + 1) id := by
  cases h with
  | same hr hl => exact hr.2.nested hl
  | built shape hp => exact nested_push _ (nests_of_laid hp).2
  | pattern hr hl' => exact (hr.2.nested hl').mono (Nat.succ_le_succ (State.room_deeper_le s))
  | expression => exact absurd rfl (he _)
  | continuation => cases hl
  | suffix => cases hl

theorem element_nests {close : Token.Kind} {rule : Rule} {role : Role} {more : Bool}
    (hr : ∀ {s i s'}, Nests maxDepth rule s i s' →
      NestedPart s'.nodes Role.isNested (s.room maxDepth) role i)
    (h : Element (NestsKept maxDepth) close rule s id more s') :
    Kept s s' ∧ NestedPart s'.nodes Role.isNested (s.room maxDepth) role id := by
  obtain ⟨-, hk, hn⟩ := h
  exact ⟨hk.trans (.skip _ _), (hr hn).grow (Kept.skip _ _).toGrown.getElem?⟩

/-- Elements nest as deep as the rule that reads them. -/
theorem elements_nest {close : Token.Kind} {rule : Rule} {role : Role} {ids : List NodeId}
    (hr : ∀ {s i s'}, Nests maxDepth rule s i s' →
      NestedPart s'.nodes Role.isNested (s.room maxDepth) role i)
    (h : Elements (NestsKept maxDepth) close rule s ids s') :
    Kept s s' ∧ ∀ i ∈ ids, NestedPart s'.nodes Role.isNested (s.room maxDepth) role i := by
  obtain ⟨h, -⟩ := h
  induction h with
  | nil => exact ⟨.refl _, by simp⟩
  | last h =>
    obtain ⟨hk, hn⟩ := element_nests hr h
    exact ⟨hk, by simpa using hn⟩
  | cons h _ ih =>
    obtain ⟨hk, hn⟩ := element_nests hr h
    obtain ⟨hk', hi⟩ := ih
    rw [State.room_of_kept hk] at hi
    exact ⟨hk.trans hk', List.forall_mem_cons.2 ⟨hn.grow hk'.toGrown.getElem?, hi⟩⟩

/-- A node of elements in brackets nests as deep as these. -/
theorem bracketed_nests {close : Token.Kind} {rule : Rule} {role : Role} {ids : List NodeId}
    {shape : Shape} (span : Span) (hs : shape.parts = ids.map (.node role))
    (hr : ∀ {s i s'}, Nests maxDepth rule s i s' →
      NestedPart s'.nodes Role.isNested (s.room maxDepth) role i)
    (h : Elements (NestsKept maxDepth) close rule s.advance ids s') :
    Nested (s'.advance.push ⟨shape, span⟩).nodes Role.isNested (s.room maxDepth)
      s'.advance.nodes.size := by
  obtain ⟨-, hi⟩ := elements_nest hr h
  rw [State.room_of_kept (.advance s)] at hi
  refine nested_push _ fun role' i hmem => ?_
  rw [hs] at hmem
  obtain ⟨_, hmem, heq⟩ := List.mem_map.1 hmem
  cases heq
  rw [State.advance_nodes]
  exact hi _ hmem

theorem operand_nests (h : Operand (NestsKept maxDepth) s id s') :
    Kept s s' ∧ NestedPart s'.nodes Role.isNested (s.room maxDepth + 2) .operand id := by
  cases h with
  | form _ hr => exact ⟨hr.1, .of_nested (hr.2.nested rfl)⟩
  | statement _ _ hr => exact ⟨hr.1, .of_nested (hr.2.nested rfl)⟩

/-- An operand and what follows it at its level. -/
theorem suffixes_nest {power : Power} {left : NodeId} {k : Nat} (hk : s.room maxDepth + 1 ≤ k)
    (hx : Suffixes (NestsKept maxDepth) power s left id s')
    (hl : NestedPart s.nodes Role.isNested k .operand left) :
    NestedPart s'.nodes Role.isNested k .operand id := by
  induction hx with
  | stop => exact hl
  | take _ _ hr _ ih =>
    exact ih (State.room_of_kept hr.1 ▸ hk) (hr.2 k hk hl)

/-- A construct with what was read before to its left. -/
theorem suffix_nests {shape : Shape} {parts : List Part} {left : NodeId} {k : Nat} (span : Span)
    (hb : shape.isBracketed = false) (hs : shape.parts = .node .operand left :: parts)
    (hp : Laid (NestsKept maxDepth) s parts s') (hk : s.room maxDepth + 1 ≤ k)
    (hl : NestedPart s.nodes Role.isNested k .operand left) :
    NestedPart (s'.push ⟨shape, span⟩).nodes Role.isNested k .operand s'.nodes.size := by
  obtain ⟨hkept, hparts⟩ := nests_of_laid hp
  refine .of_brackets (brackets_of_not_isBracketed Array.getElem?_push_size hb)
    (nested_push _ fun role i hi => ?_)
  rw [hs] at hi
  rcases List.mem_cons.1 hi with hi | hi
  · cases hi
    exact hl.grow hkept.toGrown.getElem?
  · exact (hparts role i hi).mono hk

theorem nests_of_production {rule : Rule}
    (h : Production (NestsKept maxDepth) maxDepth rule s id s') : Nests maxDepth rule s id s' := by
  have hc := constructs_of_production h
  unfold Nests
  split
  · cases h with
    | expression hd ho hx =>
      obtain ⟨hk, ho⟩ := operand_nests ho
      rw [← State.room_deeper hd]
      refine hx.2 _ ?_ ho
      rw [State.room_of_kept hk]
      exact Nat.le_succ _
  · cases h with
    | pattern hd hf hr =>
      rw [← State.room_deeper hd]
      exact .of_nested (hr.2.nested rfl)
  · cases h with
    | tuple ho hs => exact bracketed_nests _ rfl id hs
  · cases h with
    | array ho hs => exact bracketed_nests _ rfl id hs
  · cases h with
    | tuplePattern ho hs =>
      refine bracketed_nests _ rfl (fun hn => ?_) hs
      exact .of_counts (show Role.isNested .operand = _ from rfl) hn
  · cases h with
    | continuation hx => exact fun k hk hl => suffixes_nest hk hx hl
  · intro k hk hl
    cases h with
    | binary ho _ hr =>
      have ht : Laid (NestsKept maxDepth) s [] s.advance := .token (State.hasTokens_of_suffix ho)
      exact suffix_nests _ rfl rfl (ht.next (.call hr rfl)) hk hl
    | call _ hr => exact suffix_nests _ rfl rfl (.call hr rfl) hk hl
    | index _ hr => exact suffix_nests _ rfl rfl (.call hr rfl) hk hl
    | member _ hd hn =>
      exact suffix_nests _ rfl rfl ((Laid.mark hd nofun).next (.name hn)) hk hl
  · rename_i he _ _ _ _ hcontinuation hsuffix
    have hl : rule.left = [] := by
      cases rule with
      | continuation => exact (hcontinuation _ _ rfl).elim
      | suffix => exact (hsuffix _ _ _ rfl).elim
      | form | expression | tuple | pattern => rfl
    exact nests_of_constructs hc hl he

/-! ## The tree of a module -/

theorem Reached.nested {setup : Setup} (ht : setup.table = .standard) {tokens : List Token}
    {header : Option NodeId} {ids : List NodeId} (h : Reached setup tokens s header ids)
    (hi : id ∈ ids) : Nested s.nodes Role.isNested (2 * setup.maxDepth + 1) id := by
  obtain ⟨s₁, s₂, hk, -, hd, hg⟩ := h.statement_mem hi
  have hn : Nests setup.maxDepth (.form .statement) s₁ id s₂ :=
    parse_done_kept ht nests_of_production trivial hd
  have hroom : s₁.room setup.maxDepth = 2 * setup.maxDepth := by
    rw [State.room, hk.depth, State.start_depth, Nat.sub_zero]
  rw [← hroom]
  exact (hn.nested rfl).grow hg.getElem?

end Parse

theorem nestedPart_of_header {nodes : Array Node} {counts : Role → Bool} {k : Nat} {id : NodeId}
    (hc : counts .header = false) (h : HasRole nodes .header id) :
    NestedPart nodes counts k .header id := by
  obtain ⟨⟨shape, span⟩, hn, ha⟩ := h
  refine .of_brackets (brackets_of_not_counts hc) (.of_parts hn fun role i hi => ?_)
  cases shape with
  | moduleHeader path => simp [Shape.parts, Part.ofPath] at hi
  | _ => cases ha

/-- Brackets nest within a bound that the limit on depth sets, but for those that stand as
statements, as the bodies of such or as the lists under attributes. -/
theorem Parsed.ofTokens_nested (tokens : Tokens) (file : String) (options : Options) :
    ∀ n id, (ofTokens tokens file options).tree.Descends Role.isNested n id →
      n ≤ 2 * options.maxDepth + 1 := by
  intro n id h
  obtain ⟨-, hheader, -⟩ := ofTokens_sorted tokens file options
  refine (h.le (fun id hid => nestedPart_of_header rfl (hheader id hid)) fun id hid => ?_).1
  refine .of_brackets (brackets_of_not_counts rfl) ?_
  rcases Parse.ofTokens_reached tokens file options with he | ⟨s, header, ids, hr, he⟩
  · rw [he] at hid
    cases hid
  · rw [he] at hid ⊢
    exact hr.nested rfl hid

/-- So they do in the tree of a source. -/
theorem Parsed.ofSource_nested (source file : String) (options : Options) :
    ∀ n id, (ofSource source file options).tree.Descends Role.isNested n id →
      n ≤ 2 * options.maxDepth + 1 := by
  unfold ofSource
  split
  · exact ofTokens_nested _ file options
  · intro n id h
    refine (h.le (fun id hid => ?_) fun id hid => ?_).1 <;> cases hid

/-- With a limit of one, three pairs of brackets do nest: those of a tuple, of a `match` in it and
of the tuple of that. -/
theorem Parsed.ofSource_nested_match :
    let source := "match (match () \x7b\x7d) \x7b\x7d"
    (ofSource source "match.sm" { maxDepth := 1 }).tree.Descends Role.isNested 3 0 ∧
      3 ≤ 2 * 1 + 1 := by
  intro source
  let tree : Tree :=
    { file := "match.sm"
      nodes := #[⟨.tuple [], ⟨13, 15⟩⟩, ⟨.matchStatement 0 [], ⟨7, 18⟩⟩, ⟨.tuple [1], ⟨6, 19⟩⟩,
        ⟨.matchStatement 2 [], ⟨0, 22⟩⟩]
      statements := [3]
      trivia := #[⟨.whitespace, ⟨5, 6⟩⟩, ⟨.whitespace, ⟨12, 13⟩⟩, ⟨.whitespace, ⟨15, 16⟩⟩,
        ⟨.whitespace, ⟨19, 20⟩⟩] }
  have h : ofSource source "match.sm" { maxDepth := 1 } = { tree } := by decide +kernel
  have hd : tree.Descends Role.isNested 3 0 := by
    have h₃ : tree.Descends Role.isNested _ 3 := .statement (.head _)
    have h₂ := h₃.child (show tree.get? 3 = some ⟨.matchStatement 2 [], _⟩ from rfl) (.head _)
    have h₁ := h₂.child (show tree.get? 2 = some ⟨.tuple [1], _⟩ from rfl) (.head _)
    exact h₁.child (show tree.get? 1 = some ⟨.matchStatement 0 [], _⟩ from rfl) (.head _)
  have hd' : (ofSource source "match.sm" { maxDepth := 1 }).tree.Descends Role.isNested 3 0 := by
    rwa [h]
  exact ⟨hd', ofSource_nested source "match.sm" { maxDepth := 1 } 3 0 hd'⟩

/-- Counted with the bodies of functions, brackets nest deeper than a limit of zero allows: five
functions, each but the first in the body of another. -/
theorem Parsed.ofSource_bodies_nest :
    let source := "let f()\x7blet f()\x7blet f()\x7blet f()\x7blet f()\x7b\x7d\x7d\x7d\x7d\x7d"
    let parsed := ofSource source "deep.sm" { maxDepth := 0 }
    parsed.errors = [] ∧
      ∃ n id, parsed.tree.Descends (fun _ => true) n id ∧ 4 * (0 + 1) < n := by
  intro source parsed
  let signature (k : Nat) : List Node := [⟨.tuplePattern [], ⟨8 * k + 5, 8 * k + 7⟩⟩,
    ⟨.functionSignature (2 * k) none [], ⟨8 * k + 5, 8 * k + 7⟩⟩]
  let body (k : Nat) (statements : List NodeId) : Node :=
    ⟨.block statements, ⟨8 * k + 7, 45 - k⟩⟩
  let f (k : Nat) : Node :=
    ⟨.letFunction ⟨"f", false, ⟨8 * k + 4, 8 * k + 5⟩⟩ (2 * k + 1) (.block (18 - 2 * k)),
      ⟨8 * k, 45 - k⟩⟩
  let tree : Tree :=
    { file := "deep.sm"
      nodes := ((List.range 5).flatMap signature ++ [body 4 [], f 4, body 3 [11], f 3, body 2 [13],
        f 2, body 1 [15], f 1, body 0 [17], f 0]).toArray
      statements := [19]
      trivia := ((List.range 5).map fun k => ⟨.whitespace, ⟨8 * k + 3, 8 * k + 4⟩⟩).toArray }
  have h : parsed = { tree } := by decide +kernel
  rw [h]
  have inside {n k outer inner i : Nat} (hd : tree.Descends (fun _ => true) n outer)
      (hf : tree.get? outer = some (f k)) (hb : tree.get? (18 - 2 * k) = some (body k [inner]))
      (hi : tree.get? inner = some (f i)) : tree.Descends (fun _ => true) (n + 1) inner := by
    have hd' := (hd.child hf (.tail _ (.head _))).child hb (.head _)
    have hblock : brackets tree.nodes (fun _ => true) .block (18 - 2 * k) = 1 := by
      simp [brackets, show tree.nodes[18 - 2 * k]? = _ from hb, body, Shape.isBracketed]
    rwa [hblock, brackets_of_not_isBracketed hi rfl, Nat.add_zero] at hd'
  have top : brackets tree.nodes (fun _ => true) .statement 19 = 0 :=
    brackets_of_not_isBracketed (show tree.nodes[19]? = some (f 0) from rfl) rfl
  have h₀ : tree.Descends (fun _ => true) 0 19 := top ▸ .statement (.head _)
  have h₁ : tree.Descends (fun _ => true) 1 17 :=
    inside h₀ (show _ = some (f 0) from rfl) rfl (show _ = some (f 1) from rfl)
  have h₂ : tree.Descends (fun _ => true) 2 15 :=
    inside h₁ (show _ = some (f 1) from rfl) rfl (show _ = some (f 2) from rfl)
  have h₃ : tree.Descends (fun _ => true) 3 13 :=
    inside h₂ (show _ = some (f 2) from rfl) rfl (show _ = some (f 3) from rfl)
  have h₄ : tree.Descends (fun _ => true) 4 11 :=
    inside h₃ (show _ = some (f 3) from rfl) rfl (show _ = some (f 4) from rfl)
  have hlast : tree.get? 11 = some (f 4) := rfl
  exact ⟨rfl, _, 10, h₄.child hlast (.tail _ (.head _)), by decide⟩

end Smaug
