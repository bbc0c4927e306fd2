import Mathlib
import Smaug.Proofs.Parse.Settled.Rules

/-! # Parsing and going back

A rule that can be called at every token leaves behind what was there: however it ends, the tokens
passed and the nodes added are all that it has changed, so a mark from before it leads back to the
very state.  If it yields a node, that is the last of the arena.
-/

namespace Smaug

/-- The rules for callers of a parse: statements, expressions, types and patterns, and the lists,
blocks, variants and signatures that are parts of them. -/
def Rule.isEntry : Rule → Bool
  | .form .statement | .form .typeExpression | .form .array | .form .block | .form .signature
  | .expression _ | .tuple _ | .pattern .any _ | .pattern .enum _ => true
  | _ => false

/-- Such a rule can be called at every token, and passes one. -/
theorem Rule.free_of_isEntry {rule : Rule} (h : rule.isEntry) : rule.Free := by
  unfold isEntry at h
  split at h
  all_goals first | infer_instance | cases h

namespace Parse

open Grammar

/-- What a rule comes to is the last node of the arena.  A rule that takes an operand further may
come to that operand. -/
def LastRule : Meaning := fun rule s id s' =>
  (rule.isContinuation → ∀ left ∈ rule.left, s.nodes.size = left + 1) → s'.nodes.size = id + 1

theorem last_of_suffixes {power : Power} {s s' : State} {left id : NodeId}
    (h : Suffixes LastRule power s left id s') (hl : s.nodes.size = left + 1) :
    s'.nodes.size = id + 1 := by
  induction h with
  | stop => exact hl
  | take _ _ hr _ ih => exact ih (hr nofun)

theorem last_of_operand {s s' : State} {id : NodeId} (h : Operand LastRule s id s') :
    s'.nodes.size = id + 1 := by
  cases h with
  | form _ hr => exact hr nofun
  | statement _ _ hr => exact hr nofun

theorem last_of_production {maxDepth : Nat} {rule : Rule} {s s' : State} {id : NodeId}
    (h : Production LastRule maxDepth rule s id s') : LastRule rule s id s' := by
  intro hl
  cases h with
  | statement _ hr | pattern _ _ hr | namedEnum _ hr | namedIdentifier _ hr | typeExpression hr =>
    exact hr nofun
  | letVariable _ hv =>
    cases hv
    simp [State.push]
  | expression _ ho hc => exact hc fun _ => List.forall_mem_singleton.2 (last_of_operand ho)
  | continuation hs => exact last_of_suffixes hs (hl rfl _ (List.mem_singleton_self _))
  | _ => simp [State.push]

/-- Where no pattern with `in` behind it follows a parenthesis, nothing has happened. -/
theorem rangeHead_none_of_pattern {run : Rule → Parse NodeId} [∀ rule, Keeps (run rule)]
    {setup : Setup} {s s' : State} (hk : s.kind = .openParen)
    (h : (∃ error, run (.pattern .any false) setup s.advance = .stopped (.error error) s') ∨
      ∃ id, run (.pattern .any false) setup s.advance = .done id s' ∧ s'.kind ≠ .inWord) :
    rangeHead run setup s = .done none s := by
  rw [rangeHead_apply, if_pos hk]
  rcases h with ⟨error, h⟩ | ⟨id, h, hi⟩
  · simp only [h]
  · simp only [h, if_neg hi]

/-- However a rule ends, it has gone back on no token, changed no node and left every level of
nesting it has entered, and a mark from before it leads back to where it started.  If it yields a
node, it has passed a token, and the node is the last of the arena.  So the attempt at a range in
`each` leaves no trace where it fails, and where it is given up. -/
theorem entry_rewinds {setup : Setup} (ht : setup.table = .standard) {rule : Rule}
    (hr : rule.isEntry) {s : State} (he : s.Ended) :
    (∃ s',
      ((∃ id, rule.parse setup s = .done id s' ∧ s'.remaining < s.remaining ∧
          s'.nodes.size = id + 1) ∨
        ∃ error, rule.parse setup s = .stopped (.error error) s') ∧
      s'.depth = s.depth ∧ s.nodes.toList <+: s'.nodes.toList ∧ s'.tokens <:+ s.tokens ∧
      s'.reset s.mark = s) ∧
    ∀ fuel s', s.kind = .openParen →
      ((∃ error, Rule.runWith fuel (.pattern .any false) setup s.advance =
          .stopped (.error error) s') ∨
        ∃ id, Rule.runWith fuel (.pattern .any false) setup s.advance = .done id s' ∧
          s'.kind ≠ .inWord) →
      rangeHead (Rule.runWith fuel) setup s = .done none s := by
  refine ⟨?_, fun fuel s' hk h => rangeHead_none_of_pattern hk h⟩
  have : rule.Free := Rule.free_of_isEntry hr
  have hfits : Fits s rule := Rule.Free.fits s
  have hset : (rule.parse setup s).IsSettled :=
    parse_isSettled ht he hfits (by simp [Rule.Free.left])
  have hkeeps := keeps rule.parse setup s
  have undone {s' : State} (h : Kept s s') :
      s'.depth = s.depth ∧ s.nodes.toList <+: s'.nodes.toList ∧ s'.tokens <:+ s.tokens ∧
        s'.reset s.mark = s := by
    obtain ⟨passed, hpassed, -⟩ := h.tokens
    exact ⟨h.depth, h.nodes, ⟨passed, hpassed.symm⟩, h.reset_mark⟩
  cases ho : rule.parse setup s with
  | done id s' =>
    rw [ho] at hkeeps
    have hlast : LastRule rule s id s' := parse_done ht last_of_production hfits ho
    refine ⟨s', .inl ⟨id, rfl, passes rule.parse ht he ho, hlast ?_⟩, undone hkeeps⟩
    have hpasses : rule.isContinuation = false := Rule.Free.passes
    rw [hpasses]
    exact nofun
  | stopped why s' =>
    rw [ho] at hset hkeeps
    cases why with
    | error error => exact ⟨s', .inr ⟨error, rfl⟩, undone hkeeps⟩
    | missingNode => exact hset.elim
    | exhausted => exact hset.elim

set_option maxRecDepth 20000 in
/-- In the middle of a parse, at `(a = 1`: no expression and no head of a range. -/
theorem entry_rewinds_parenthesis :
    let s : State :=
      { current := ⟨.openParen, "(", ⟨5, 6⟩⟩
        ahead := [⟨.identifier, "a", ⟨6, 7⟩⟩, ⟨.assignment, "=", ⟨8, 9⟩⟩,
          ⟨.integer, "1", ⟨10, 11⟩⟩, .endAt (.emptyAt 11)]
        nodes := #[⟨.integer 7, ⟨0, 1⟩⟩]
        depth := 3
        lastStop := 4 }
    s.Ended ∧ (∃ error s', (Rule.expression .lowest).parse (.standard "a.sm" {}) s =
        .stopped (.error error) s' ∧ s'.nodes.size = 2 ∧ s'.depth = 3 ∧ s'.reset s.mark = s) ∧
      rangeHead (Rule.runWith 8) (.standard "a.sm" {}) s = .done none s := by
  intro s
  have he : s.Ended := ⟨_, rfl, rfl⟩
  obtain ⟨⟨s', houtcome, hdepth, -, -, hreset⟩, hrange⟩ :=
    @entry_rewinds (.standard "a.sm" {}) rfl (.expression .lowest) rfl s he
  refine ⟨he, ?_, hrange 8 _ rfl (.inr ⟨_, rfl, by decide⟩)⟩
  rcases houtcome with ⟨id, ho, -⟩ | ⟨error, ho⟩
  · cases ho
  · have hsize : 2 = s'.nodes.size :=
      congrArg (fun | .done _ s' | .stopped _ s' => s'.nodes.size : Outcome NodeId → Nat) ho
    exact ⟨error, s', ho, hsize.symm, hdepth, hreset⟩

end Parse
end Smaug
