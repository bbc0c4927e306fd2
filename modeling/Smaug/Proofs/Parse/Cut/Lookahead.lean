import Mathlib
import Smaug.Proofs.Parse.Cut.Rules
import Smaug.Proofs.Parse.Depth.Limit
import Smaug.Proofs.Parse.Settled.Rules

/-! # Rules that look ahead

Some rules look further ahead than the token they pass next: past a name for a parenthesis, past
`:` or `,` for what an attribute would be followed by, and past a whole pattern for `in`.  At the
end of a piece they see less than there is in the input.  But where that would have led them
elsewhere, it would have led them beyond the piece.
-/

namespace Smaug.Parse

open Grammar

section
variable {f : Frame} {n : Nat}

/-- A token looked at ahead, where one of the kind looked for leads two tokens on. -/
theorem cuts_peek [Shift α] {kind : Token.Kind} (hk : kind ≠ .eof)
    {step step' other other' : Parse α} (h : Cuts f n step step') (h' : Cuts f n other other')
    (hp : ∀ {setup : Setup} {s s' : State} {value : α}, setup.table = .standard → s.Ended →
      step setup s = .done value s' → s'.remaining + 2 ≤ s.remaining)
    [hp' : Passes other] :
    Cuts f n (look (·.peek 1) >>= fun next => if next = kind then step else other)
      (look (·.peek 1) >>= fun next => if next = kind then step' else other') where
  framed {setup setup'} ht hsetup s c s' value hs hd hn := by
    change (if s.peek 1 = kind then step else other) setup s = _ at hd
    change ((if c.peek 1 = kind then step' else other') setup' c).Framed f value s'
    by_cases hs1 : s.peek 1 = kind
    · rw [if_pos hs1] at hd
      have := hp ht hs.ended hd
      rw [if_pos ((hs.peek (by omega)).symm.trans hs1)]
      exact h.framed ht hsetup hs hd hn
    · rw [if_neg hs1] at hd
      have := hp'.passes ht hs.ended hd
      have hc1 : c.peek 1 ≠ kind := by
        by_cases hr : f.rest.length + 1 < s.remaining
        · rwa [← hs.peek hr]
        · rw [hs.peek_end (by omega)]
          exact hk.symm
      rw [if_neg hc1]
      exact h'.framed ht hsetup hs hd hn

theorem continuesAsAttributes_end {table : Table} {c : State} (hc : c.kind = .eof) :
    continuesAsAttributes table c = false := by simp [continuesAsAttributes, hc]

/-- On the last token of a piece, what comes after it is seen to be the end of the input. -/
theorem continuesAsAttributes_last {table : Table} {s c : State} (hk : s.kind = c.kind)
    (hp : c.peek 1 = .eof) (hcomma : continuesAsAttributes table s = true → s.kind ≠ .comma)
    (hcolon : continuesAsAttributes table s = false → s.kind ≠ .colon) :
    continuesAsAttributes table c = continuesAsAttributes table s := by
  by_cases hs : s.kind = .colon
  · have hb : continuesAsAttributes table s = true := by simpa using mt hcolon (not_not.2 hs)
    rw [hb]
    simp [continuesAsAttributes, ← hk, hs, hp]
  by_cases hs' : s.kind = .comma
  · have hb : continuesAsAttributes table s = false := by simpa using mt hcomma (not_not.2 hs')
    rw [hb]
    simp [continuesAsAttributes, ← hk, hs', hp]
  · unfold continuesAsAttributes
    rw [← hk]
    split <;> first | rfl | contradiction

theorem continuesAsAttributes_framed {table : Table} {s c : State} (hs : Framed f s c)
    (htrue : continuesAsAttributes table s = true →
      f.rest.length < s.remaining ∧ (s.kind = .comma → f.rest.length + 1 < s.remaining))
    (hfalse : continuesAsAttributes table s = false → s.kind = .colon →
      f.rest.length + 1 < s.remaining) :
    continuesAsAttributes table c = continuesAsAttributes table s := by
  rcases Nat.lt_trichotomy (f.rest.length + 1) s.remaining with hr | hr | hr
  · unfold continuesAsAttributes
    rw [hs.kind (by omega), hs.peek hr]
  · refine continuesAsAttributes_last (hs.kind (by omega)) (hs.peek_end hr.symm) ?_ ?_
    · intro hb hk
      have := (htrue hb).2 hk
      omega
    · intro hb hk
      have := hfalse hb hk
      omega
  · rw [continuesAsAttributes_end (hs.outside (by omega)).1]
    cases hb : continuesAsAttributes table s with
    | false => rfl
    | true =>
      have := (htrue hb).1
      omega

theorem cuts_continuesAsAttributes {step step' other other' : Parse NodeId} [Passes step]
    (h : Cuts f n step step') (h' : Cuts f n other other')
    (hcomma : ∀ {setup : Setup} {s s' : State} {id : NodeId}, setup.table = .standard → s.Ended →
      s.kind = .comma → step setup s = .done id s' → s'.remaining + 2 ≤ s.remaining)
    (hcolon : ∀ {setup : Setup} {s s' : State} {id : NodeId}, setup.table = .standard → s.Ended →
      s.kind = .colon → other setup s = .done id s' → s'.remaining + 2 ≤ s.remaining) :
    Cuts f n (look (continuesAsAttributes .standard) >>= fun b => if b then step else other)
      (look (continuesAsAttributes .standard) >>= fun b => if b then step' else other') where
  framed {setup setup'} ht hsetup s c s' value hs hd hn := by
    change (if continuesAsAttributes .standard s then step else other) setup s = _ at hd
    change ((if continuesAsAttributes .standard c then step' else other') setup' c).Framed f
      value s'
    cases hb : continuesAsAttributes .standard s with
    | true =>
      rw [if_pos hb] at hd
      have hlt := passes step ht hs.ended hd
      have hc := continuesAsAttributes_framed hs
        (fun _ => ⟨by omega, fun hk => by have := hcomma ht hs.ended hk hd; omega⟩)
        (fun hb' => by rw [hb] at hb'; cases hb')
      rw [if_pos (hc.trans hb)]
      exact h.framed ht hsetup hs hd hn
    | false =>
      rw [hb, if_neg Bool.false_ne_true] at hd
      have hc := continuesAsAttributes_framed hs
        (fun hb' => by rw [hb] at hb'; cases hb')
        (fun _ hk => by have := hcolon ht hs.ended hk hd; omega)
      rw [hc, hb, if_neg Bool.false_ne_true]
      exact h'.framed ht hsetup hs hd hn

end

/-! ## Rules that pass two tokens -/

section
variable {run : Rule → Parse NodeId} [∀ rule, Keeps (run rule)] {setup : Setup} {s s' : State}
  {id : NodeId}

theorem moreAttributes_passes {ids : List NodeId} (he : s.Ended)
    (hk : s.kind = .comma) (h : moreAttributes run setup s = .done ids s') :
    s'.remaining < s.remaining := by
  obtain ⟨b, s₁, hb, h⟩ := bind_done.1 h
  obtain ⟨rfl, rfl⟩ := eat_done.1 hb
  rw [State.skip, if_pos hk, if_pos (beq_iff_eq.2 hk)] at h
  have := he.remaining_advance (State.hasTokens_of_kind hk (by decide))
  exact Nat.lt_of_le_of_lt (kept_of_done h).remaining_le this

section
variable [Passing run]

theorem letFunction_passes {start : Nat} (ht : setup.table = .standard) (he : s.Ended)
    (hd : letFunction run start setup s = .done id s') : s'.remaining + 2 ≤ s.remaining := by
  obtain ⟨_, _, hn, hd⟩ := bind_done.1 hd
  obtain ⟨hs, -, rfl⟩ := name_done.1 hn
  have hadv := he.remaining_advance (State.hasTokens_of_isName hs)
  have := passes _ ht (he.advance (State.hasTokens_of_isName hs)).2 hd
  omega

omit [∀ rule, Keeps (run rule)] in
theorem binary_passes_operand (ht : setup.table = .standard) (he : s.Ended) (hk : s.hasTokens)
    {left : NodeId} {power : Power} (h : binary run left power setup s = .done id s') :
    s'.remaining + 2 ≤ s.remaining := by
  obtain ⟨kind, s, hl, h⟩ := bind_done.1 h
  obtain ⟨rfl, rfl⟩ := look_done.1 hl
  cases ho : BinaryOp.ofKind? s.kind with
  | none => simp [ho, bind_done, refuse_done] at h
  | some op =>
    simp only [ho] at h
    obtain ⟨token, s₁, ha, h⟩ := bind_done.1 h
    obtain ⟨-, rfl⟩ := advance_done.1 ha
    have := he.remaining_advance hk
    have := passes _ ht (he.advance hk).2 h
    omega

end

end

/-! ## What the rules look ahead to -/

/-- Rules that are known by what they start with. -/
class Definite (run : Rule → Parse NodeId) : Prop where
  /-- A pattern with arguments passes the name and a token after it. -/
  enum {setup : Setup} (ht : setup.table = .standard) {s s' : State} (he : s.Ended)
    {allowDefault : Bool} {id : NodeId}
    (hd : run (.pattern .enum allowDefault) setup s = .done id s') : s'.remaining + 2 ≤ s.remaining
  /-- A colon is taken for an operator, with an operand after it. -/
  colon {setup : Setup} (ht : setup.table = .standard) {s s' : State} (he : s.Ended)
    (hk : s.kind = .colon) {left id : NodeId}
    (hd : run (.continuation left .lowest) setup s = .done id s') : s'.remaining + 2 ≤ s.remaining
  /-- Behind a parenthesis that opens a pattern stands a pattern, unless it is closed there. -/
  openParen {setup : Setup} (ht : setup.table = .standard) {s s' : State} (he : s.Ended)
    (hk : s.kind = .openParen) {id : NodeId}
    (hd : run (.pattern .any false) setup s = .done id s') :
    s.advance.kind = .closeParen ∨ ∃ id₁ s₁,
      run (.pattern .any false) setup s.advance = .done id₁ s₁ ∧ s'.remaining ≤ s₁.remaining
  /-- No pattern starts with a parenthesis that closes. -/
  closeParen {setup : Setup} (ht : setup.table = .standard) {s : State}
    (hk : s.kind = .closeParen) :
    ∃ s₁, (∃ error, run (.pattern .any false) setup s = .stopped (.error error) s₁) ∨
      run (.pattern .any false) setup s = .stopped .exhausted s₁

section
variable {f : Frame} {n : Nat} {run run' : Rule → Parse NodeId} [∀ rule, Keeps (run rule)]
  [∀ rule, Keeps (run' rule)] [Passing run] [CutsRules f run run'] [Definite run]
  [hdefinite : Definite run']
set_option synthInstance.maxSize 2048

instance (allowDefault : Bool) :
    Cuts f n (namedPattern run allowDefault) (namedPattern run' allowDefault) :=
  cuts_peek (by decide) inferInstance inferInstance fun ht he hd => Definite.enum ht he hd

instance (start : Nat) : Passes (letStruct run start) := by unfold letStruct; infer_instance

instance (start : Nat) : Passes (letEnum run start) := by unfold letEnum; infer_instance

instance : Cuts f n (letStatement run) (letStatement run') := by
  have (start start' : Nat) [Same start (start' + f.offset)] : Cuts f n
      (look (·.peek 1) >>= fun next =>
        if next = .openParen then letFunction run start else letVariable run start)
      (look (·.peek 1) >>= fun next =>
        if next = .openParen then letFunction run' start' else letVariable run' start') :=
    cuts_peek (by decide) inferInstance inferInstance letFunction_passes
  refine cuts_next (fun token => passes_bind fun kind => ?_) fun token =>
    cuts_kind (fun kind => ?_) fun kind => ?_
  all_goals split <;> infer_instance

instance : Cuts f n (yieldStatement run) (yieldStatement run') := by
  refine cuts_bind (fun token => ?_) fun token => cuts_bind (fun operand => ?_) fun operand =>
    cuts_given (cuts_continuesAsAttributes inferInstance inferInstance ?_ ?_)
  · infer_instance
  · infer_instance
  · intro setup s s' id ht he hk hd
    obtain ⟨first, s₁, hf, hd⟩ := bind_done.1 hd
    obtain ⟨rfl, rfl⟩ := pushFrom_done.1 hf
    obtain ⟨more, s₂, hm, hd⟩ := bind_done.1 hd
    have hlt : s₂.remaining < s.remaining := moreAttributes_passes (s := s.push _) he hk hm
    have he' : s₂.Ended := State.Ended.grow (kept_of_done hm).toGrown he
    have := passes _ ht he' hd
    omega
  · intro setup s s' id ht he hk hd
    obtain ⟨value, s₁, hv, hd⟩ := bind_done.1 hd
    obtain ⟨rfl, rfl⟩ := pushFrom_done.1 hd
    have hle : s₁.remaining + 2 ≤ s.remaining := Definite.colon ht he hk hv
    exact hle

/-- A head of a range is not there where it reads no pattern, or no `in` behind one. -/
theorem rangeHead_none {run : Rule → Parse NodeId} [∀ rule, Keeps (run rule)] {setup : Setup}
    {s s₁ : State} (ho : s.kind = .openParen)
    (h : (∃ error, run (.pattern .any false) setup s.advance = .stopped (.error error) s₁) ∨
      run (.pattern .any false) setup s.advance = .stopped .exhausted s₁ ∨
      ∃ id, run (.pattern .any false) setup s.advance = .done id s₁ ∧ s₁.kind ≠ .inWord) :
    rangeHead run setup s = .done none s ∨ rangeHead run setup s = .stopped .exhausted s₁ := by
  rw [rangeHead_apply, if_pos ho]
  rcases h with ⟨error, h⟩ | h | ⟨id, h, hk⟩ <;> simp [*]

theorem rangeHead_none_framed {setup setup' : Setup} (ht : setup.table = .standard)
    (hsetup : setup.Alike setup') {s c s₁ : State} {id : NodeId} (hs : Framed f s c)
    (hh : rangeHead run setup s = .done none s)
    (hp : run (.pattern .any false) setup s = .done id s₁) (hr : f.rest.length < s₁.remaining) :
    rangeHead run' setup' c = .done none c ∨
      ∃ c₁, rangeHead run' setup' c = .stopped .exhausted c₁ := by
  have hlt := passes _ ht hs.ended hp
  have hrs : f.rest.length < s.remaining := by omega
  by_cases ho : s.kind = .openParen
  · have hoc : c.kind = .openParen := (hs.kind hrs).symm.trans ho
    suffices h : ∃ c₁, _ from h.elim fun c₁ h => (rangeHead_none hoc h).imp_right fun h => ⟨c₁, h⟩
    rcases Definite.openParen ht hs.ended ho hp with hclose | ⟨id₂, s₂, h₂, hle⟩
    · have hadv := congrArg List.length (hs.ended.advance (hs.hasTokens hrs)).1
      simp only [State.length_tokens, List.length_cons] at hadv
      have hk := ((hs.advance hrs).kind (by omega)).symm.trans hclose
      obtain ⟨c₁, h⟩ := hdefinite.closeParen (hsetup.table ▸ ht) hk
      exact ⟨c₁, h.imp_right .inl⟩
    · rw [rangeHead_apply, if_pos ho, h₂] at hh
      have hk : s₂.kind ≠ .inWord := fun hk => by simp [hk] at hh
      have hf : Cuts f 0 (run (.pattern .any false)) (run' (.pattern .any false)) := inferInstance
      have ho' := hf.framed ht hsetup (hs.advance hrs) h₂ (by omega)
      generalize run' (.pattern .any false) setup' c.advance = outcome at ho'
      cases ho' with
      | done hv h =>
        exact ⟨_, .inr (.inr ⟨_, rfl, (h.kind (by omega)).symm.trans_ne hk⟩)⟩
      | exhausted => exact ⟨_, .inr (.inl rfl)⟩
  · rw [rangeHead_apply, if_neg (by rwa [← hs.kind hrs])]
    exact .inl rfl

theorem cuts_rangeHead {next next' : Option (Span × NodeId) → Parse NodeId}
    (hp : ∀ head, Passes (next head))
    (hsome : ∀ head : Span × NodeId, Cuts f n (next (some (shift f head))) (next' (some head)))
    (hnone : Cuts f n (next none) (next' none))
    (hpattern : ∀ {setup : Setup} {s s' : State} {id : NodeId}, setup.table = .standard → s.Ended →
      next none setup s = .done id s' → ∃ id₁ s₁,
        run (.pattern .any false) setup s = .done id₁ s₁ ∧ s'.remaining < s₁.remaining) :
    Cuts f n (rangeHead run >>= next) (rangeHead run' >>= next') where
  framed {setup setup'} ht hsetup s c s' value hs hd hn := by
    obtain ⟨head, s₀, hh, hnext⟩ := bind_done.1 hd
    change (Parse.bind (rangeHead run') next' setup' c).Framed f value s'
    unfold Parse.bind
    rcases rangeHead_done hh with ⟨rfl, rfl⟩ | ⟨ho, pattern, s₁, hp₁, hi, rfl, rfl⟩
    · obtain ⟨id₁, s₁, h₁, hlt⟩ := hpattern ht hs.ended hnext
      have hback : rangeHead run' setup' c = .done none c ∨
          ∃ c₁, rangeHead run' setup' c = .stopped .exhausted c₁ :=
        rangeHead_none_framed ht hsetup hs hh h₁ (by omega)
      rcases hback with h | ⟨c₁, h⟩
      · rw [h]
        exact hnone.framed ht hsetup hs hnext hn
      · rw [h]
        exact .exhausted
    · have hka := (Kept.advance s).remaining_le
      have hk₁ := (kept_of_done hp₁).remaining_le
      have hka₁ := (Kept.advance s₁).remaining_le
      have he₁ : s₁.advance.Ended :=
        hs.ended.grow (((Kept.advance s).trans (kept_of_done hp₁)).trans (Kept.advance s₁)).toGrown
      have hlt := passes _ ht he₁ hnext
      have hr : f.rest.length < s.remaining := by omega
      have hf : Cuts f 0 (run (.pattern .any false)) (run' (.pattern .any false)) := inferInstance
      have ho' := hf.framed ht hsetup (hs.advance hr) hp₁ (by omega)
      rw [rangeHead_apply, if_pos ((hs.kind hr).symm.trans ho)]
      generalize run' (.pattern .any false) setup' c.advance = outcome at ho'
      cases ho' with
      | done hv h =>
        have hr₁ : f.rest.length < s₁.remaining := by omega
        simp only [(h.kind hr₁).symm.trans hi, if_true]
        rw [hv, show s.current.span = shift f c.current.span by rw [(hs.inside hr).1]; rfl] at hnext
        exact (hsome _).framed ht hsetup (h.advance hr₁) hnext hn
      | exhausted => exact .exhausted

instance : Cuts f n (eachStatement run) (eachStatement run') := by
  refine cuts_next (fun token => passes_bind fun head => ?_) fun token =>
    cuts_rangeHead (fun head => ?_) (fun head => ?_) ?_ ?_
  · split <;> infer_instance
  · split <;> infer_instance
  · infer_instance
  · infer_instance
  · intro setup s s' id ht he hd
    obtain ⟨_, _, hl, hd⟩ := bind_done.1 hd
    obtain ⟨rfl, rfl⟩ := look_done.1 hl
    obtain ⟨binding, s₂, hb, hd⟩ := bind_done.1 hd
    obtain ⟨pattern, s₁, hp, hb⟩ := bind_done.1 hb
    refine ⟨pattern, s₁, hp, ?_⟩
    have := passes _ ht (he.grow (kept_of_done hp).toGrown) hb
    have := (kept_of_done hd).remaining_le
    omega

/-! ## Every rule -/

instance (form : Form) : Cuts f n (form.body run) (form.body run') := by
  cases form <;> unfold Form.body <;> infer_instance

instance (left : NodeId) (power : Power) (suffix : Suffix) :
    Cuts f n (suffix.body run (shift f left) power) (suffix.body run' left power) := by
  cases suffix <;> unfold Suffix.body <;> infer_instance

instance (allowDefault : Bool) (form : PatternForm) :
    Cuts f n (form.body run allowDefault) (form.body run' allowDefault) := by
  cases form <;> unfold PatternForm.body <;> infer_instance

theorem cuts_ruleBody (rule : Rule) :
    Cuts f n ((shift f rule).body run) (rule.body run') := by
  match rule with
  | .form form => exact inferInstanceAs (Cuts f n (form.body run) (form.body run'))
  | .expression power =>
    exact inferInstanceAs (Cuts f n (expression run power) (expression run' power))
  | .continuation left power =>
    exact inferInstanceAs
      (Cuts f n (continuation run (shift f left) power) (continuation run' left power))
  | .suffix suffix left power =>
    exact inferInstanceAs
      (Cuts f n (suffix.body run (shift f left) power) (suffix.body run' left power))
  | .tuple owner => exact inferInstanceAs (Cuts f n (tuple run owner) (tuple run' owner))
  | .pattern form allowDefault =>
    exact inferInstanceAs (Cuts f n (form.body run allowDefault) (form.body run' allowDefault))

end

section
variable {setup : Setup} {s s' : State} {id : NodeId}

/-- Without a default value a pattern is read as well, up to where the default value would be. -/
theorem pattern_done_strict {n : Nat} {form : PatternForm}
    (h : Rule.runWith n (.pattern form true) setup s = .done id s') :
    ∃ id₁ s₁, Rule.runWith n (.pattern form false) setup s = .done id₁ s₁ ∧
      s'.remaining ≤ s₁.remaining := by
  induction n generalizing form s id s' with
  | zero => cases h
  | succ n ih =>
    cases form with
    | any =>
      obtain ⟨hd, s₁, hin, rfl⟩ := nested_done.1 h
      obtain ⟨table, s₂, ht, h⟩ := bind_done.1 hin
      obtain ⟨kind, s₃, hk, h⟩ := bind_done.1 h
      cases hp : table.pattern kind with
      | none => simp [hp, bind_done, refuse_done] at h
      | some form =>
        simp only [hp] at h
        obtain ⟨id₁, s₄, h, hle⟩ := ih h
        refine ⟨id₁, s₄.leave, nested_done.2 ⟨hd, s₄, bind_done.2 ⟨table, s₂, ht, bind_done.2
          ⟨kind, s₃, hk, ?_⟩⟩, rfl⟩, hle⟩
        simpa only [hp] using h
    | named =>
      obtain ⟨next, s₂, hk, h⟩ := bind_done.1 h
      by_cases hn : next = .openParen
      · rw [if_pos hn] at h
        obtain ⟨id₁, s₁, h, hle⟩ := ih h
        exact ⟨id₁, s₁, bind_done.2 ⟨next, s₂, hk, by rwa [if_pos hn]⟩, hle⟩
      · rw [if_neg hn] at h
        obtain ⟨id₁, s₁, h, hle⟩ := ih h
        exact ⟨id₁, s₁, bind_done.2 ⟨next, s₂, hk, by rwa [if_neg hn]⟩, hle⟩
    | identifier =>
      obtain ⟨name, s₁, hn, h⟩ := bind_done.1 h
      obtain ⟨type, s₂, ht, h⟩ := bind_done.1 h
      have hle := (kept_of_done h).remaining_le
      refine ⟨_, _, bind_done.2 ⟨name, s₁, hn, bind_done.2 ⟨type, s₂, ht, bind_done.2
        ⟨none, s₂, rfl, pushFrom_done.2 ⟨rfl, rfl⟩⟩⟩⟩, hle⟩
    | rest | tuple | enum | literal => exact ⟨id, s', h, Nat.le_refl _⟩

/-- Behind a parenthesis that opens a pattern the first of its patterns stands, which is read there
as well one level less deep. -/
theorem runWith_openParen (ht : setup.table = .standard) {n : Nat} (hk : s.kind = .openParen)
    (hd : Rule.runWith n (.pattern .any false) setup s = .done id s') :
    s.advance.kind = .closeParen ∨ ∃ id₁ s₁,
      Rule.runWith n (.pattern .any false) setup s.advance = .done id₁ s₁ ∧
        s'.remaining ≤ s₁.remaining := by
  refine or_iff_not_imp_left.2 fun hclose => ?_
  cases n with
  | zero => cases hd
  | succ n =>
    cases pattern_done (R := fun rule s id s' => Rule.runWith n rule setup s = .done id s')
      (fun _ h => h) ht hd with
    | pattern _ hf hr =>
      cases n with
      | zero => cases hr
      | succ n =>
        rw [hk] at hf
        cases hf
        change tuplePattern (Rule.runWith n) setup s.deeper = .done id _ at hr
        simp only [tuplePattern, bind_done, expect_done, inside_done, pushFrom_done,
          deeper_advance] at hr
        obtain ⟨_, _, ⟨-, rfl, rfl⟩, elements, s₂, h, rfl, rfl⟩ := hr
        obtain ⟨id₁, s₃, h, hle⟩ := delimited_first (s := s.advance.deeper) hclose h
        obtain ⟨id₂, s₄, h, hle'⟩ := pattern_done_strict h
        have hless : MoreRoom setup setup s.advance.deeper s.advance :=
          ⟨rfl, Nat.add_le_add_left (Nat.le_succ _) _⟩
        have hrule : Refines setup setup _ (Rule.runWith (n + 1 + 1) (.pattern .any false)) :=
          runWith_refines ht (Nat.le_add_right n 2) (.pattern .any false)
        have hrefines := hrule.outcome hless
        rw [h] at hrefines
        generalize Rule.runWith (n + 1 + 1) (.pattern .any false) setup s.advance = outcome
          at hrefines
        cases hrefines with
        | givesUp hg => exact hg.elim
        | done hroom =>
          exact ⟨_, _, rfl, (hle.trans hle').trans (Nat.le_of_eq hroom.remaining.symm)⟩

theorem misplaced_error (expected : Expected) (setup : Setup) (s : State) :
    ∃ error, (misplaced expected >>= fun error => refuse error : Parse α) setup s =
      .stopped (.error error) s := by
  unfold misplaced unexpected
  change ∃ error, Parse.bind (Parse.bind (look State.current) _) _ setup s = _
  cases hr : s.current.kind.isReserved with
  | true => simp [Parse.bind, look, hr, errorAt, given, refuse, stop]
  | false => simp [Bind.bind, Parse.bind, look, hr, errorAt, given, refuse, stop]

theorem runWith_closeParen (ht : setup.table = .standard) (hk : s.kind = .closeParen) (n : Nat) :
    ∃ s₁, (∃ error, Rule.runWith n (.pattern .any false) setup s = .stopped (.error error) s₁) ∨
      Rule.runWith n (.pattern .any false) setup s = .stopped .exhausted s₁ := by
  cases n with
  | zero => exact ⟨s, .inr rfl⟩
  | succ n =>
    have hnone : Table.standard.pattern s.kind = none := by
      rw [hk]
      rfl
    change ∃ s₁, (∃ error, pattern _ false setup s = .stopped (.error error) s₁) ∨ _
    unfold pattern
    rw [nested_apply]
    by_cases hd : s.depth < setup.maxDepth
    · have hm : ∃ error, (misplaced .pattern >>= fun error => refuse error : Parse NodeId) setup
          s.deeper = .stopped (.error error) s.deeper := misplaced_error .pattern setup s.deeper
      obtain ⟨error, he⟩ := hm
      have hk : setup.table.pattern s.deeper.kind = none := ht ▸ hnone
      rw [if_pos hd]
      simp only [Bind.bind, Parse.bind, given, look, hk] at he ⊢
      rw [he]
      exact ⟨s, .inl ⟨error, rfl⟩⟩
    · rw [if_neg hd]
      exact ⟨s, .inl ⟨_, rfl⟩⟩

instance definite_runWith (n : Nat) : Definite (Rule.runWith n) where
  enum {setup} ht {s s'} he {allowDefault id} hd := by
    cases n with
    | zero => cases hd
    | succ n =>
      obtain ⟨name, s₁, hn, hd⟩ := bind_done.1 hd
      obtain ⟨hs, -, rfl⟩ := name_done.1 hn
      have := he.remaining_advance (State.hasTokens_of_isName hs)
      have := passes _ ht (he.advance (State.hasTokens_of_isName hs)).2 hd
      omega
  colon {setup} ht {s s'} he hk {left id} hd := by
    cases n with
    | zero => cases hd
    | succ n =>
      obtain ⟨turn, s₁, hd, hle⟩ := loop_first (fun left => keeps_bind _ fun table =>
        keeps_bind _ fun kind => by split <;> infer_instance) hd
      simp only [bind_done, look_done, given_done, ht] at hd
      obtain ⟨_, _, ⟨rfl, rfl⟩, _, s, ⟨rfl, rfl⟩, hd⟩ := hd
      have hsuffix : Table.standard.suffix s.kind = some (.compare, .binary) := by
        rw [hk]
        rfl
      simp only [hsuffix] at hd
      rw [if_pos (by decide)] at hd
      obtain ⟨id, s₂, hd, hp⟩ := bind_done.1 hd
      obtain ⟨-, rfl⟩ := pure_done.1 hp
      cases n with
      | zero => cases hd
      | succ n =>
        have := binary_passes_operand ht he (State.hasTokens_of_kind hk (by decide)) hd
        omega
  openParen ht _ _ _ hk _ hd := runWith_openParen ht hk hd
  closeParen ht _ hk := runWith_closeParen ht hk n

instance cuts_runWith (f : Frame) (n m : Nat) : CutsRules f (Rule.runWith n) (Rule.runWith m) := by
  induction m generalizing n with
  | zero => exact ⟨fun _ _ => ⟨fun _ _ _ _ _ _ _ _ _ => .exhausted⟩⟩
  | succ m ih =>
    cases n with
    | zero => exact ⟨fun _ _ => ⟨fun _ _ _ _ _ _ _ hd _ => by cases hd⟩⟩
    | succ n => exact ⟨fun _ rule => cuts_ruleBody rule⟩

/-- A statement is read in the piece as in the input, if the piece reaches as far. -/
theorem statement_framed {f : Frame} {setup' : Setup} (ht : setup.table = .standard)
    (hsetup : setup.Alike setup') {c : State} (hs : Framed f s c)
    (hd : (Rule.form .statement).parse setup s = .done id s') (hr : f.rest.length ≤ s'.remaining) :
    ∃ id' c', (Rule.form .statement).parse setup' c = .done id' c' ∧ id = shift f id' ∧
      Framed f s' c' := by
  have hrule : Cuts f 0 (Rule.runWith (Rule.fuel setup s) (.form .statement))
      (Rule.runWith (Rule.fuel setup' c) (.form .statement)) := inferInstance
  have ho := hrule.framed ht hsetup hs hd hr
  have hsettled : ((Rule.form .statement).parse setup' c).IsSettled :=
    parse_isSettled (hsetup.table ▸ ht) hs.ended_piece trivial (List.forall_mem_nil _)
  change ((Rule.form .statement).parse setup' c).Framed f id s' at ho
  generalize (Rule.form .statement).parse setup' c = outcome at ho hsettled
  cases ho with
  | done hv h => exact ⟨_, _, rfl, hv, h⟩
  | exhausted => exact hsettled.elim

end

end Smaug.Parse
