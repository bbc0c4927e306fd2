import Mathlib
import Smaug.Proofs.Parse.Cut.Lookahead
import Smaug.Proofs.Parse.Expected.Rules

/-! # Rules that look ahead on two inputs that part

On the last token before the place where two inputs part, a rule that looks at the next token may
go one way on the one input and another way on the other.  Whichever way led it there by what stands
at the place then passes that token.
-/

namespace Smaug.Parse

open Grammar

theorem State.Ended.advance_remaining {s : State} (he : s.Ended) (hk : s.hasTokens) :
    s.advance.remaining + 1 = s.remaining := by
  rw [← State.length_tokens, ← State.length_tokens, (he.advance hk).1, List.length_cons]

theorem Outcome.Passed.reaches {outcome : Outcome α} {n : Nat} (h : outcome.Passed (n + 1)) :
    outcome.Reaches n := by
  match outcome, h with
  | .done _ s, h => exact .inl (Nat.le_of_lt h)
  | .stopped .., _ => trivial

theorem Passes.reaches {step : Parse α} [hp : Passes step] {setup : Setup}
    (ht : setup.table = .standard) {s : State} (he : s.Ended) {n : Nat}
    (hr : s.remaining ≤ n + 2) : (step setup s).Reaches n := by
  cases ho : step setup s with
  | done a s₁ => exact .inl (Nat.le_of_lt_succ (Nat.lt_of_lt_of_le (hp.passes ht he ho) hr))
  | stopped why s₁ => trivial

section
variable {f : Fork} {run : Rule → Parse NodeId} [∀ rule, Keeps (run rule)] [Passing run]
  [Taking run] [FollowsRules f run] {setup : Setup} {s s' : State}
set_option synthInstance.maxSize 2048

/-! ## A parenthesis behind a name -/

omit [∀ rule, Keeps (run rule)] [Passing run] [Taking run] [FollowsRules f run] in
/-- Where the parenthesis is seen, it is passed. -/
theorem peek_follows {kind : Token.Kind} {step other : Parse α} [Passes step] [Passes other]
    (ht : setup.table = .standard) (hs : Forked f s s') (hb : f.Before s) (hk : s.hasTokens)
    (h : (step setup s).Follows f (step setup s'))
    (ho : (other setup s).Follows f (other setup s'))
    (hp : s.peek 1 = kind → (step setup s).Passed s.advance.remaining)
    (hp' : s'.peek 1 = kind → (step setup s').Passed s'.advance.remaining) :
    ((if s.peek 1 = kind then step else other) setup s).Follows f
      ((if s'.peek 1 = kind then step else other) setup s') := by
  rcases Nat.lt_or_ge (f.rest.length + 2) s.remaining with hr | hr
  · rw [hs.peek hr]
    split
    · exact h
    · exact ho
  · -- On the last token before the place, the one looked at is what differs.
    have hlast : s.remaining = f.rest.length + 2 := Nat.le_antisymm hr hb
    have hr' := hs.remaining
    have hk' : s'.hasTokens := by rwa [State.hasTokens, hs.kind hb]
    have hadv := hs.ended.advance_remaining hk
    have hadv' := hs.ended'.advance_remaining hk'
    by_cases hc : s.peek 1 = kind <;> by_cases hc' : s'.peek 1 = kind
    · rw [if_pos hc, if_pos hc']
      exact h
    · rw [if_pos hc, if_neg hc']
      refine .apart (Passes.reaches ht hs.ended (by omega)) (Passes.reaches ht hs.ended' (by omega))
        (.inl (Outcome.Passed.excused ?_))
      rw [show f.rest.length + 1 = s.advance.remaining by omega]
      exact hp hc
    · rw [if_neg hc, if_pos hc']
      refine .apart (Passes.reaches ht hs.ended (by omega)) (Passes.reaches ht hs.ended' (by omega))
        (.inr ?_)
      rw [show f.more.length + 1 = s'.advance.remaining by omega]
      exact hp' hc'
    · rw [if_neg hc, if_neg hc']
      exact ho

omit [∀ rule, Keeps (run rule)] in
theorem namedPattern_follows (ht : setup.table = .standard) (hs : Forked f s s')
    (hb : f.Before s) (hn : s.current.isName) (allowDefault : Bool) :
    (namedPattern run allowDefault setup s).Follows f (namedPattern run allowDefault setup s') :=
  peek_follows ht hs hb (State.hasTokens_of_isName hn)
    (FollowsRules.before (.pattern .enum allowDefault) ht hs hb trivial)
    (FollowsRules.before (.pattern .identifier allowDefault) ht hs hb trivial)
    (fun hp => Taking.enum ht hs.ended hn hp)
    fun hp => Taking.enum ht hs.ended' (by rwa [hs.current hb]) hp

omit [Passing run] [FollowsRules f run] in
/-- A function passes its name and the parenthesis. -/
theorem letFunction_passed (ht : setup.table = .standard) (he : s.Ended) (hn : s.current.isName)
    (hp : s.peek 1 = .openParen) (start : Nat) :
    (letFunction run start setup s).Passed s.advance.remaining := by
  have hk := State.hasTokens_of_isName hn
  have hd : name setup s = .done s.name s.advance := name_done.2 ⟨hn, rfl, rfl⟩
  rw [letFunction, bind_of_done hd]
  exact passed_bind (Taking.passed (.form .signature) ht (he.advance hk).2
    ((he.kind_advance hk).trans hp))

def declared (run : Rule → Parse NodeId) (start : Nat) : Parse NodeId := do
  match ← look State.kind with
  | .structWord => letStruct run start
  | .enumWord => letEnum run start
  | .identifier | .builtIn =>
    if (← look (·.peek 1)) = .openParen then letFunction run start else letVariable run start
  | _ => letVariable run start

omit [∀ rule, Keeps (run rule)] [Passing run] [Taking run] [FollowsRules f run] in
theorem letStatement_eq : letStatement run = (do
    let start := (← advance).span.start
    declared run start) := rfl

instance (start : Nat) : Keeps (declared run start) :=
  keeps_bind _ fun kind => by split <;> infer_instance

instance (start : Nat) : Passes (declared run start) :=
  passes_bind fun kind => by split <;> infer_instance

omit [∀ rule, Keeps (run rule)] [Passing run] [Taking run] [FollowsRules f run] in
/-- A declaration that a name starts. -/
theorem declared_name (start : Nat) (hn : s.current.isName) :
    declared run start setup s = (if s.peek 1 = .openParen then letFunction run start
      else letVariable run start) setup s := by
  have hk : s.current.kind = .identifier ∨ s.current.kind = .builtIn := by
    simpa [Token.isName] using hn
  simp only [declared, Bind.bind, Parse.bind, look, State.kind]
  rcases hk with hk | hk <;> rw [hk] <;> rfl

omit [Passing run] [Taking run] [FollowsRules f run] in
/-- A declaration of another form is known by its first token, which it passes. -/
theorem declared_wants {start : Nat} {item : Expected} (he : s.Ended)
    (hw : (declared run start setup s).Wants s.remaining item) :
    (letVariable run start setup s).Wants s.remaining item := by
  by_cases hn : s.current.isName
  · rw [declared_name start hn] at hw
    split at hw
    · exact absurd hw (passed_bind (name_passed he hn)).not_wants
    · exact hw
  · simp only [declared, Bind.bind, Parse.bind, look] at hw
    generalize hk : s.kind = kind at hw
    split at hw
    · exact absurd hw (passed_bind (expect_passed he hk)).not_wants
    · exact absurd hw (passed_bind (expect_passed he hk)).not_wants
    iterate 2
      · exact absurd (by simp [Token.isName, show s.current.kind = _ from hk]) hn
    · exact hw

instance (start : Nat) : Takes (letVariable run start) [.pattern] := by
  unfold letVariable; infer_instance

instance (start : Nat) : Takes (declared run start) [.pattern] where
  takes {setup} ht s s' he he' hd item hw := by
    obtain ⟨hi, hp⟩ := Takes.takes ht he he' hd (declared_wants he hw)
    refine ⟨hi, fun hm => ?_⟩
    have hpattern : Expected.Met .pattern s'.current := hm.of_singleton hi
    have hn : s'.current.isName := isName_of_met hpattern
    rw [declared_name start hn]
    split
    · exact passed_bind (name_passed he' hn)
    · exact hp hm

instance (start : Nat) : Follows f (declared run start) (declared run start) := by
  refine follows_of ⟨fun {setup} ht s s' hs hb => ?_⟩ followsAt_of_takes
  by_cases hn : s.current.isName
  · have hn' : s'.current.isName := by rwa [hs.current hb]
    rw [declared_name start hn, declared_name start hn']
    exact peek_follows ht hs hb (State.hasTokens_of_isName hn) (Follows.follows ht hs)
      (Follows.follows ht hs) (fun hp => letFunction_passed ht hs.ended hn hp start)
      fun hp => letFunction_passed ht hs.ended' hn' hp start
  · simp only [declared, Bind.bind, Parse.bind, look]
    rw [hs.kind hb]
    generalize hk : s.kind = kind
    split
    · exact Follows.follows ht hs
    · exact Follows.follows ht hs
    iterate 2
      · exact absurd (by simp [Token.isName, show s.current.kind = _ from hk]) hn
    · exact Follows.follows ht hs

theorem letStatement_before : FollowsBefore f (letStatement run) (letStatement run) := by
  rw [letStatement_eq]
  exact followsBefore_advance.bind fun _ => inferInstance

/-! ## A statement list behind an attribute -/

def attributed (run : Rule → Parse NodeId) (start : Nat) (operand : NodeId) : Parse NodeId := do
  let first ← pushFrom start (.yieldAttribute operand)
  let more ← moreAttributes run
  let body ← statementList run
  pushFrom start (.batchAttributes (first :: more) body)

def yielded (run : Rule → Parse NodeId) (start : Nat) (operand : NodeId) : Parse NodeId := do
  let value ← run (.continuation operand .lowest)
  pushFrom start (.yieldStatement value)

omit [∀ rule, Keeps (run rule)] [Passing run] [Taking run] [FollowsRules f run] in
theorem yieldStatement_eq : yieldStatement run = (do
    let start := (← expect .yieldWord).span.start
    let operand ← typeExpression run
    if ← look (continuesAsAttributes (← given Setup.table)) then attributed run start operand
    else yielded run start operand) := rfl

instance (start : Nat) (operand : NodeId) : Keeps (attributed run start operand) := by
  unfold attributed; infer_instance

instance (start : Nat) (operand : NodeId) : Passes (attributed run start operand) := by
  unfold attributed; infer_instance

instance (start : Nat) (operand : NodeId) : Keeps (yielded run start operand) := by
  unfold yielded; infer_instance

instance (start : Nat) (operand : NodeId) :
    Follows f (attributed run start operand) (attributed run start operand) := by
  unfold attributed; infer_instance

instance (start : Nat) (operand : NodeId) :
    Follows f (yielded run start operand) (yielded run start operand) := by
  unfold yielded; infer_instance

section
variable {table : Table} {start : Nat} {operand : NodeId}

omit [∀ rule, Keeps (run rule)] [Passing run] [Taking run] [FollowsRules f run] in
theorem moreAttributes_none (hk : s.kind ≠ .comma) : moreAttributes run setup s = .done [] s := by
  have hd : eat .comma setup s = .done false s :=
    eat_done.2 ⟨(beq_eq_false_iff_ne.2 hk).symm, (if_neg hk).symm⟩
  rw [moreAttributes, bind_of_done hd]
  rfl

omit [∀ rule, Keeps (run rule)] [Passing run] [Taking run] [FollowsRules f run] in
theorem moreAttributes_comma (hk : s.kind = .comma) : moreAttributes run setup s =
    (if s.advance.kind = .yieldWord then attributeList run else return []) setup s.advance := by
  have hd : eat .comma setup s = .done true s.advance :=
    eat_done.2 ⟨(beq_iff_eq.2 hk).symm, (if_pos hk).symm⟩
  rw [moreAttributes, bind_of_done hd]
  by_cases hy : s.advance.kind = .yieldWord <;>
    simp [Bind.bind, Parse.bind, isAt, look, hy]

variable (run setup s start operand) in
omit [∀ rule, Keeps (run rule)] [Passing run] [Taking run] [FollowsRules f run] in
/-- The state behind the first attribute differs only in the node for it. -/
theorem attributed_apply : ∃ node, attributed run start operand setup s =
    (moreAttributes run >>= fun more => statementList run >>= fun body =>
      pushFrom start (.batchAttributes (s.nodes.size :: more) body)) setup (s.push node) :=
  ⟨_, rfl⟩

omit [Passing run] [Taking run] [FollowsRules f run] in
/-- What attributes are known by, they pass. -/
theorem attributed_passed (he : s.Ended) (hc : continuesAsAttributes table s) :
    (attributed run start operand setup s).Passed s.remaining := by
  obtain ⟨node, hd⟩ := attributed_apply run setup s start operand
  rw [hd]
  by_cases hk : (s.push node).kind = .comma
  · refine passed_bind ?_
    rw [moreAttributes_comma hk]
    exact (keeps _ setup _).passed
      (he.remaining_advance (s := s.push node) (State.hasTokens_of_kind hk (by decide)))
  · rw [bind_of_done (moreAttributes_none hk)]
    refine passed_bind (statementList_passed he ?_)
    change s.kind ≠ .comma at hk
    change s.kind = .colon ∨ s.kind = .openCurly
    unfold continuesAsAttributes at hc
    split at hc <;> simp_all

omit [Passing run] [Taking run] [FollowsRules f run] in
/-- Behind a comma they also pass the next token. -/
theorem attributed_comma_passed (he : s.Ended) (hk : s.kind = .comma)
    (hc : continuesAsAttributes table s) :
    (attributed run start operand setup s).Passed s.advance.remaining := by
  obtain ⟨node, hd⟩ := attributed_apply run setup s start operand
  have hk₁ : (s.push node).kind = .comma := hk
  have he₁ : (s.push node).Ended := he
  have htokens := State.hasTokens_of_kind hk (by decide)
  have hadv := he.advance_remaining htokens
  have hadv₁ : (s.push node).advance.remaining + 1 = s.remaining := he₁.advance_remaining htokens
  have hnext : (s.push node).advance.kind = s.peek 1 := he₁.kind_advance htokens
  rw [hd, show s.advance.remaining = (s.push node).advance.remaining by omega]
  by_cases hy : (s.push node).advance.kind = .yieldWord
  · refine passed_bind ?_
    rw [moreAttributes_comma hk₁, if_pos hy]
    exact attributeList_passed (he₁.advance htokens).2 hy
  · have hmore : moreAttributes run setup (s.push node) = .done [] (s.push node).advance := by
      rw [moreAttributes_comma hk₁, if_neg hy]
      rfl
    rw [bind_of_done hmore]
    refine passed_bind (statementList_passed (he₁.advance htokens).2 ?_)
    rw [hnext] at hy ⊢
    simp only [continuesAsAttributes, hk] at hc
    simp_all [or_comm]

omit [FollowsRules f run] [Passing run] in
/-- A statement list in colon form that starts at the place ends there, or goes on with what it
found. -/
theorem colonList_excused (ht : setup.table = .standard) (he : s.Ended) (ha : f.At s)
    (hc : s.current = f.found) (hk : s.goesOn → (Table.statements s.kind).isSome)
    (hi : f.item ≠ .statement) (hi' : f.item ≠ .token .closeCurly) :
    ((bracedItems (run (.form .statement)) >>= fun statements =>
      pushFrom start (.transparentList .colon statements)) setup s).Excused f := by
  rw [bracedItems_eq]
  cases hg : s.goesOn with
  | true =>
    have hitem : (nextItem (run (.form .statement)) setup s).Passed s.remaining := by
      change ((if s.goesOn then _ else return none : Parse _) setup s).Passed _
      rw [if_pos hg]
      exact passed_bind (Taking.passed (.form .statement) ht he (hk hg))
    have hp := collect_passed hitem
    rw [show s.remaining = _ from ha] at hp
    exact bind_excused hp.excused
  | false =>
    have hitem : nextItem (run (.form .statement)) setup s = .done none s := by
      change (if s.goesOn then _ else return none : Parse _) setup s = _
      rw [hg]
      rfl
    have hturn : collectTurn (nextItem (run (.form .statement))) [] setup s =
        .done (.finish []) s := bind_of_done hitem
    have hitems : collect (nextItem (run (.form .statement))) setup s = .done [] s :=
      iterate_finish hturn
    rw [bind_of_done hitems]
    refine fun _ => ⟨ha, ?_, hi, hi', [], start, by simp [State.push, State.spanFrom]⟩
    rw [← hc]
    by_contra hne
    rw [not_or] at hne
    rw [goesOn_iff.2 ⟨hne.2, hne.1⟩] at hg
    cases hg

omit [FollowsRules f run] [Passing run] in
theorem attributed_colon_excused (ht : setup.table = .standard) (hs : Forked f s s')
    (hb : f.Before s) (hlast : s.remaining = f.rest.length + 2) (hk : s.kind = .colon)
    (hc : continuesAsAttributes .standard s) (hi : f.item ≠ .statement)
    (hi' : f.item ≠ .token .closeCurly) : (attributed run start operand setup s).Excused f := by
  obtain ⟨node, hd⟩ := attributed_apply run setup s start operand
  have htokens : (s.push node).hasTokens := State.hasTokens_of_kind hk (by decide)
  have hnext := (hs.push node).advance hb
  have ha : f.At (s.push node).advance := by
    have := (hs.push node).ended.advance_remaining htokens
    change _ = s.remaining at this
    rw [Fork.At]
    omega
  have hmore : moreAttributes run setup (s.push node) = .done [] (s.push node) :=
    moreAttributes_none (by rw [show (s.push node).kind = _ from hk]; decide)
  have heat : eat .colon setup (s.push node) = .done true (s.push node).advance :=
    eat_done.2 ⟨(beq_iff_eq.2 hk).symm, (if_pos hk).symm⟩
  rw [hd, bind_of_done hmore]
  refine bind_excused ?_
  change ((eat .colon >>= _) setup (s.push node)).Excused f
  rw [bind_of_done heat]
  refine colonList_excused ht hnext.ended ha (hnext.current_at ha).1 (fun hg => ?_) hi hi'
  have hpeek : (s.push node).advance.kind = s.peek 1 := (hs.push node).ended.kind_advance htokens
  have hends := goesOn_iff.1 hg
  change (s.push node).advance.kind ≠ _ ∧ (s.push node).advance.kind ≠ _ at hends
  rw [hpeek] at hends ⊢
  simpa [continuesAsAttributes, hk, hends, Table.standard] using hc

omit [Passing run] [Taking run] [FollowsRules f run] in
theorem yielded_reaches [Definite run] (ht : setup.table = .standard) (he : s.Ended) {n : Nat}
    (hr : s.remaining = n + 2) (hk : s.kind = .colon ∨ s.kind = .comma) :
    (yielded run start operand setup s).Reaches n := by
  rcases hk with hk | hk
  · refine bind_reaches ?_
    cases hd : run (.continuation operand .lowest) setup s with
    | done id s₁ =>
      have := Definite.colon ht he hk hd
      exact .inl (by omega)
    | stopped why s₁ => trivial
  · exact (keeps _ setup s).reaches (.inr ⟨hr, hk⟩)

/-- Where the look ahead differs, it is to the place. -/
theorem continuesAsAttributes_differ (hs : Forked f s s') (hb : f.Before s)
    (hne : continuesAsAttributes table s ≠ continuesAsAttributes table s') :
    s.remaining = f.rest.length + 2 ∧ (s.kind = .colon ∨ s.kind = .comma) := by
  refine ⟨?_, ?_⟩
  · by_contra hr
    have hr : f.rest.length + 2 < s.remaining := Nat.lt_of_le_of_ne hb (Ne.symm hr)
    apply hne
    unfold continuesAsAttributes
    rw [hs.kind hb, hs.peek hr]
  · by_contra hk
    rw [not_or] at hk
    apply hne
    unfold continuesAsAttributes
    rw [hs.kind hb]
    split <;> simp_all

omit [Passing run] [FollowsRules f run] in
/-- Attributes that only the first parse sees. -/
theorem attributed_excused (ht : setup.table = .standard) (hs : Forked f s s') (hb : f.Before s)
    (hc : continuesAsAttributes .standard s) (hc' : continuesAsAttributes .standard s' = false) :
    (attributed run start operand setup s).Excused f := by
  obtain ⟨hlast, hk⟩ := continuesAsAttributes_differ hs hb (by rw [hc, hc']; decide)
  obtain ⟨-, hput⟩ := hs.peek_last hlast
  have hmet := f.met
  rcases hk with hk | hk
  · have hk' : s'.kind = .colon := (hs.kind hb).trans hk
    simp only [continuesAsAttributes, hk', hput] at hc'
    refine attributed_colon_excused ht hs hb hlast hk hc (fun hi => ?_) fun hi => ?_
    · rw [hi] at hmet
      rw [show f.put.kind = .doWord from hmet] at hc'
      cases hc'
    · rw [hi] at hmet
      rw [show f.put.kind = .closeCurly from hmet] at hc'
      cases hc'
  · have hp : (attributed run start operand setup s).Passed s.advance.remaining :=
      attributed_comma_passed hs.ended hk hc
    have hadv := hs.ended.advance_remaining (State.hasTokens_of_kind hk (by decide))
    rw [show s.advance.remaining = f.rest.length + 1 by omega] at hp
    exact hp.excused

omit [Passing run] [Taking run] in
/-- Attributes that only the second parse sees. -/
theorem attributed_otherwise (ht : setup.table = .standard) (hs : Forked f s s') (hb : f.Before s)
    (hc : continuesAsAttributes .standard s = false) (hc' : continuesAsAttributes .standard s') :
    (yielded run start operand setup s).Excused f ∨
      (attributed run start operand setup s').Passed (f.more.length + 1) := by
  obtain ⟨hlast, hk⟩ := continuesAsAttributes_differ hs hb (by rw [hc, hc']; decide)
  obtain ⟨-, hput⟩ := hs.peek_last hlast
  have hr := hs.remaining
  rcases hk with hk | hk
  · -- The first parse takes the colon for an operator.  Put there, an operand leads the second so.
    have hk' : s'.kind = .colon := (hs.kind hb).trans hk
    have hadv := hs.ended.advance_remaining (State.hasTokens_of_kind hk (by decide))
    have ha : f.At s.advance := by
      rw [Fork.At]
      omega
    refine .inl (bind_excused (FollowsRules.colon ht hs.ended hk ha (fun hi => ?_) operand).1)
    have hmet := f.met
    rw [hi] at hmet
    simp only [continuesAsAttributes, hk', hput, show f.put.kind = .identifier from hmet] at hc'
    cases hc'
  · have hk' : s'.kind = .comma := (hs.kind hb).trans hk
    have hadv := hs.ended'.advance_remaining (State.hasTokens_of_kind hk' (by decide))
    rw [show f.more.length + 1 = s'.advance.remaining by omega]
    exact .inr (attributed_comma_passed hs.ended' hk' hc')

theorem continuesAsAttributes_follows [Definite run] (ht : setup.table = .standard)
    (hs : Forked f s s') :
    ((if continuesAsAttributes .standard s then attributed run start operand
      else yielded run start operand) setup s).Follows f
      ((if continuesAsAttributes .standard s' then attributed run start operand
        else yielded run start operand) setup s') := by
  have hr := hs.remaining
  cases hc : continuesAsAttributes .standard s <;>
    cases hc' : continuesAsAttributes .standard s' <;>
    simp only [Bool.false_eq_true, if_false, if_true]
  · exact Follows.follows ht hs
  · rcases hs.cases with ha | hb
    · exact hs.apart ha (.inr (attributed_passed hs.ended' hc'))
    · obtain ⟨hlast, hk⟩ := continuesAsAttributes_differ hs hb (by rw [hc, hc']; decide)
      exact .apart (yielded_reaches ht hs.ended hlast hk) (Passes.reaches ht hs.ended' (by omega))
        (attributed_otherwise ht hs hb hc hc')
  · rcases hs.cases with ha | hb
    · have hp : (attributed run start operand setup s).Passed s.remaining :=
        attributed_passed hs.ended hc
      rw [show s.remaining = _ from ha] at hp
      exact hs.apart ha (.inl hp.excused)
    · obtain ⟨hlast, hk⟩ := continuesAsAttributes_differ hs hb (by rw [hc, hc']; decide)
      exact .apart (Passes.reaches ht hs.ended (by omega))
        (yielded_reaches ht hs.ended' (by omega) (by rwa [hs.kind hb]))
        (.inl (attributed_excused ht hs hb hc hc'))
  · exact Follows.follows ht hs

end

instance [Definite run] : Follows f (yieldStatement run) (yieldStatement run) := by
  rw [yieldStatement_eq]
  refine follows_bind (fun token => ?_) (fun token => ?_) fun token =>
    follows_bind (fun operand => ?_) (fun operand => ?_) fun operand =>
      ⟨fun {setup} ht s s' hs => ?_⟩
  iterate 4 infer_instance
  change ((if continuesAsAttributes setup.table s then _ else _ : Parse NodeId) setup s).Follows f
    ((if continuesAsAttributes setup.table s' then _ else _ : Parse NodeId) setup s')
  rw [ht]
  exact continuesAsAttributes_follows ht hs

/-! ## The head of a range -/

def rangeBody (run : Rule → Parse NodeId) (start : Nat) (opening : Span) (pattern : NodeId) :
    Parse NodeId := do
  let range ← inside '(' "range header" opening do
    let range ← value run
    let _ ← expect .closeParen
    return range
  let body ← value run
  pushFrom start (.eachRange pattern range body)

def eachBinding (run : Rule → Parse NodeId) (start : Nat) : Parse NodeId := do
  let binding ← letVariable run (← look (·.current.span.start))
  let body ← statementOrBlock run
  pushFrom start (.each binding body)

def eachRest (run : Rule → Parse NodeId) (start : Nat) : Option (Span × NodeId) → Parse NodeId
  | some (opening, pattern) => rangeBody run start opening pattern
  | none => eachBinding run start

omit [∀ rule, Keeps (run rule)] [Passing run] [Taking run] [FollowsRules f run] in
theorem eachStatement_eq : eachStatement run = (do
    let start := (← advance).span.start
    eachRest run start (← rangeHead run)) := rfl

instance (start : Nat) (opening : Span) (pattern : NodeId) :
    Keeps (rangeBody run start opening pattern) := by
  unfold rangeBody; infer_instance

instance (start : Nat) : Keeps (eachBinding run start) := by unfold eachBinding; infer_instance

instance (start : Nat) (head : Option (Span × NodeId)) : Keeps (eachRest run start head) := by
  unfold eachRest; split <;> infer_instance

instance (start : Nat) : Passes (eachBinding run start) := by unfold eachBinding; infer_instance

instance (start : Nat) (opening : Span) (pattern : NodeId) :
    Passes (rangeBody run start opening pattern) := by unfold rangeBody; infer_instance

instance (start : Nat) (head : Option (Span × NodeId)) : Passes (eachRest run start head) := by
  unfold eachRest; split <;> infer_instance

instance (start : Nat) : Takes (eachBinding run start) [.pattern] where
  takes {setup} ht s s' he he' hd item hw := by
    have hw : ((letVariable run s.current.span.start >>= _) setup s).Wants s.remaining item := hw
    have hpattern : (run (.pattern .any false) setup s).Wants s.remaining item :=
      wants_bind ht he (wants_bind ht he hw)
    refine (Takes.takes ht he he' hd hpattern).imp_right fun hp hm => ?_
    exact passed_look (passed_bind (passed_bind (hp hm)))

instance (start : Nat) : Follows f (eachBinding run start) (eachBinding run start) :=
  follows_of (followsBefore_look (fun hs hb => by rw [hs.current hb]) fun _ => followsBefore _ _)
    followsAt_of_takes

instance (start : Nat) (opening : Span) (pattern : NodeId) :
    Follows f (rangeBody run start opening pattern) (rangeBody run start opening pattern) := by
  unfold rangeBody; infer_instance

omit [Passing run] [Taking run] [FollowsRules f run] in
theorem rangeHead_none_of_kind (hk : s.kind ≠ .openParen) :
    rangeHead run setup s = .done none s := by rw [rangeHead_apply, if_neg hk]

variable (run setup) in
omit [Passing run] [Taking run] [FollowsRules f run] in
/-- A head is read behind a parenthesis, or nothing has happened. -/
theorem rangeHead_cases (hk : s.kind = .openParen) :
    (rangeHead run setup s).BreaksOff ∨ rangeHead run setup s = .done none s ∨
      ∃ pattern s₁, run (.pattern .any false) setup s.advance = .done pattern s₁ ∧
        s₁.kind = .inWord ∧
        rangeHead run setup s = .done (some (s.current.span, pattern)) s₁.advance := by
  rw [rangeHead_apply, if_pos hk]
  match run (.pattern .any false) setup s.advance with
  | .done pattern s₁ =>
    by_cases hi : s₁.kind = .inWord
    · exact .inr (.inr ⟨pattern, s₁, rfl, hi, if_pos hi⟩)
    · exact .inr (.inl (if_neg hi))
  | .stopped (.error _) _ => exact .inr (.inl rfl)
  | .stopped (.missingNode _) _ | .stopped .exhausted _ => exact .inl trivial

omit [Passing run] [Taking run] [FollowsRules f run] in
/-- Where the pattern has led a parse to the place, `in` behind it leads beyond. -/
theorem remaining_of_in {pattern : NodeId} {s₁ : State} {n : Nat} (he : s₁.Ended)
    (hk : s₁.kind = .inWord) (hr : (.done pattern s₁ : Outcome NodeId).Reaches n) :
    s₁.advance.remaining ≤ n := by
  have hadv := he.advance_remaining (State.hasTokens_of_kind hk (by decide))
  rcases hr with hr | ⟨-, hcomma⟩
  · omega
  · cases hk.symm.trans hcomma

instance (start : Nat) : Takes (rangeHead run >>= eachRest run start) [.pattern] where
  takes {setup} ht s s' he he' hd item hw := by
    have hbinding : (eachBinding run start setup s).Wants s.remaining item := by
      by_cases hk : s.kind = .openParen
      · rcases rangeHead_cases run setup hk with
          hoff | hnone | ⟨pattern, s₁, hp, hi, hsome⟩
        · exact absurd hw (bind_breaksOff hoff).not_wants
        · rwa [bind_of_done hnone] at hw
        · rw [bind_of_done hsome] at hw
          have hle := (kept_of_done hsome).remaining_le
          have hadv := he.remaining_advance (State.hasTokens_of_kind hk (by decide))
          have hle := ((kept_of_done hp).trans (Kept.advance s₁)).remaining_le
          exact absurd hw ((keeps _ setup _).passed (by omega)).not_wants
      · rwa [bind_of_done (rangeHead_none_of_kind hk)] at hw
    obtain ⟨hi, hp⟩ := Takes.takes ht he he' hd hbinding
    refine ⟨hi, fun hm => ?_⟩
    have hk : s'.kind ≠ .openParen := by
      rw [show s'.kind = .identifier from hm.of_singleton hi]
      decide
    rw [bind_of_done (rangeHead_none_of_kind hk)]
    exact hp hm

section
variable [Definite run]

omit [Taking run] [FollowsRules f run] in
/-- Without a head the pattern is read from the parenthesis on, and reaches as far. -/
theorem eachBinding_reaches (ht : setup.table = .standard) (he : s.Ended) (hk : s.kind = .openParen)
    {n : Nat} (hr : (run (.pattern .any false) setup s.advance).Reaches n)
    (hclose : s.advance.kind = .closeParen → s.remaining ≤ n + 2) (start : Nat) :
    (eachBinding run start setup s).Reaches n := by
  change ((letVariable run s.current.span.start >>= _) setup s).Reaches n
  refine bind_reaches ?_
  cases ho : letVariable run s.current.span.start setup s with
  | stopped why s₂ => trivial
  | done id s₂ =>
    obtain ⟨pattern, s₃, hp, hrest⟩ := bind_done.1 ho
    have hlt := passes _ ht (State.Ended.grow (kept_of_done hp).toGrown he) hrest
    have hlt' := passes _ ht he hp
    refine .inl ?_
    rcases Definite.openParen ht he hk hp with hc | ⟨id₁, s₁, h₁, hle⟩
    · have := hclose hc
      omega
    · rw [h₁] at hr
      rcases hr with hr | ⟨hr, -⟩ <;> omega

omit [∀ rule, Keeps (run rule)] [Passing run] [Taking run] [FollowsRules f run] in
theorem pattern_closeParen (ht : setup.table = .standard) (hk : s.kind = .closeParen)
    {pattern : NodeId} {s₁ : State} :
    run (.pattern .any false) setup s ≠ .done pattern s₁ := by
  obtain ⟨s₂, ⟨error, h⟩ | h⟩ := (inferInstance : Definite run).closeParen ht hk <;>
    rw [h] <;> nofun

omit [∀ rule, Keeps (run rule)] [Passing run] [Taking run] [FollowsRules f run]
  [Definite run] in
theorem eachRest_none (hn : rangeHead run setup s = .done none s) (start : Nat) :
    (rangeHead run >>= eachRest run start) setup s = eachBinding run start setup s :=
  bind_of_done hn

omit [Passing run] [Taking run] [FollowsRules f run] [Definite run] in
/-- Behind a pattern that has come to the place, a head leads beyond. -/
theorem eachRest_cases (he : s.Ended) (hk : s.kind = .openParen) {n : Nat}
    (hr : (run (.pattern .any false) setup s.advance).Reaches n) (start : Nat) :
    ((rangeHead run >>= eachRest run start) setup s).BreaksOff ∨
      rangeHead run setup s = .done none s ∨
      (∃ pattern s₁, run (.pattern .any false) setup s.advance = .done pattern s₁) ∧
        ((rangeHead run >>= eachRest run start) setup s).Passed (n + 1) := by
  refine (rangeHead_cases run setup hk).imp bind_breaksOff (Or.imp_right ?_)
  rintro ⟨pattern, s₁, hp, hi, hsome⟩
  rw [hp] at hr
  have he₁ := (he.advance (State.hasTokens_of_kind hk (by decide))).2
  have hle := remaining_of_in (he₁.grow (kept_of_done hp).toGrown) hi hr
  rw [bind_of_done hsome]
  exact ⟨⟨pattern, s₁, hp⟩, (keeps _ setup _).passed (Nat.lt_succ_of_le hle)⟩

/-- Both have come to the place behind the parenthesis, whether they have read a head or not. -/
theorem eachRest_apart (ht : setup.table = .standard) (hs : Forked f s s') (hb : f.Before s)
    (hk : s.kind = .openParen)
    (hr : (run (.pattern .any false) setup s.advance).Reaches f.rest.length)
    (hr' : (run (.pattern .any false) setup s'.advance).Reaches f.more.length) (start : Nat) :
    ((rangeHead run >>= eachRest run start) setup s).Follows f
      ((rangeHead run >>= eachRest run start) setup s') := by
  have hk' : s'.kind = .openParen := (hs.kind hb).trans hk
  have hnext := hs.advance hb
  have hadv := hs.ended.advance_remaining (State.hasTokens_of_kind hk (by decide))
  have hadv' := hs.ended'.advance_remaining (State.hasTokens_of_kind hk' (by decide))
  rcases eachRest_cases hs.ended hk hr start with hoff | hnone | ⟨⟨_, _, hp⟩, hpassed⟩
  · exact .breaksOff (.inl hoff)
  all_goals rcases eachRest_cases hs.ended' hk' hr' start with
    hoff | hnone' | ⟨⟨_, _, hp'⟩, hpassed'⟩
  · exact .breaksOff (.inr hoff)
  · rw [eachRest_none hnone, eachRest_none hnone']
    exact Follows.follows ht hs
  · -- No pattern starts with a closing parenthesis, so that if one comes next, it is at the place.
    have hclose : s.advance.kind = .closeParen → s.remaining ≤ f.rest.length + 2 := by
      intro hc
      rcases hnext.cases with ha | hb₁
      · rw [Fork.At] at ha
        omega
      · exact absurd hp' (pattern_closeParen ht ((hnext.kind hb₁).trans hc))
    rw [eachRest_none hnone]
    exact .apart (eachBinding_reaches ht hs.ended hk hr hclose start) hpassed'.reaches
      (.inr hpassed')
  · exact .breaksOff (.inr hoff)
  · have hclose : s'.advance.kind = .closeParen → s'.remaining ≤ f.more.length + 2 := by
      intro hc
      rcases hnext.cases with ha | hb₁
      · have := hnext.remaining_at ha
        omega
      · exact absurd hp (pattern_closeParen ht ((hnext.kind hb₁).symm.trans hc))
    rw [eachRest_none hnone']
    exact .apart hpassed.reaches (eachBinding_reaches ht hs.ended' hk' hr' hclose start)
      (.inl hpassed.excused)
  · exact .apart hpassed.reaches hpassed'.reaches (.inl hpassed.excused)

omit [Definite run] in
/-- Behind the same pattern, before the place, both parses see `in` or neither does. -/
theorem eachRest_pattern (ht : setup.table = .standard) (hs : Forked f s s') (hb : f.Before s)
    (hk : s.kind = .openParen) {pattern : NodeId} {s₁ s₁' : State}
    (ho : run (.pattern .any false) setup s.advance = .done pattern s₁)
    (ho' : run (.pattern .any false) setup s'.advance = .done pattern s₁')
    (h : Forked f s₁ s₁') (hb₁ : f.Before s₁) (start : Nat) :
    ((rangeHead run >>= eachRest run start) setup s).Follows f
      ((rangeHead run >>= eachRest run start) setup s') := by
  have hk' : s'.kind = .openParen := (hs.kind hb).trans hk
  have hhead : rangeHead run setup s = if s₁.kind = .inWord
      then .done (some (s.current.span, pattern)) s₁.advance else .done none s := by
    rw [rangeHead_apply, if_pos hk, ho]
  have hhead' : rangeHead run setup s' = if s₁.kind = .inWord
      then .done (some (s.current.span, pattern)) s₁'.advance else .done none s' := by
    rw [rangeHead_apply, if_pos hk', ho', hs.current hb, ← h.kind hb₁]
  by_cases hi : s₁.kind = .inWord
  · rw [if_pos hi] at hhead hhead'
    rw [bind_of_done hhead, bind_of_done hhead']
    exact (inferInstance : Follows f (rangeBody run start s.current.span pattern)
      (rangeBody run start s.current.span pattern)).follows ht (h.advance hb₁)
  · rw [if_neg hi] at hhead hhead'
    rw [eachRest_none hhead, eachRest_none hhead']
    exact Follows.follows ht hs

omit [Passing run] [Taking run] [FollowsRules f run] [Definite run] in
theorem eachRest_breaksOff (hk : s.kind = .openParen)
    (h : (run (.pattern .any false) setup s.advance).BreaksOff) (start : Nat) :
    ((rangeHead run >>= eachRest run start) setup s).BreaksOff := by
  refine bind_breaksOff ?_
  rw [rangeHead_apply, if_pos hk]
  match run (.pattern .any false) setup s.advance, h with
  | .done .., h | .stopped (.error _) _, h => exact False.elim h
  | .stopped (.missingNode _) _, _ | .stopped .exhausted _, _ => trivial

theorem eachRest_before (start : Nat) : FollowsBefore f (rangeHead run >>= eachRest run start)
    (rangeHead run >>= eachRest run start) where
  follows {setup} ht s s' hs hb := by
    have hnone (hn : rangeHead run setup s = .done none s)
        (hn' : rangeHead run setup s' = .done none s') :
        ((rangeHead run >>= eachRest run start) setup s).Follows f
          ((rangeHead run >>= eachRest run start) setup s') := by
      rw [eachRest_none hn, eachRest_none hn']
      exact Follows.follows ht hs
    by_cases hk : s.kind = .openParen
    swap
    · exact hnone (rangeHead_none_of_kind hk) (rangeHead_none_of_kind (by rwa [hs.kind hb]))
    have hk' : s'.kind = .openParen := (hs.kind hb).trans hk
    have hpattern : (run (.pattern .any false) setup s.advance).Follows f
        (run (.pattern .any false) setup s'.advance) := Follows.follows ht (hs.advance hb)
    generalize ho : run (.pattern .any false) setup s.advance = outcome,
      ho' : run (.pattern .any false) setup s'.advance = outcome' at hpattern
    cases hpattern with
    | done h =>
      rcases h.cases with ha | hb₁
      · refine eachRest_apart ht hs hb hk ?_ ?_ start
        · rw [ho]
          exact .inl (Nat.le_of_eq ha)
        · rw [ho']
          exact .inl (Nat.le_of_eq (h.remaining_at ha))
      · exact eachRest_pattern ht hs hb hk ho ho' h hb₁ start
    | error h hb₁ =>
      -- The pattern is refused in both before the place, and both forget it.
      refine hnone ?_ ?_
      · rw [rangeHead_apply, if_pos hk, ho]
      · rw [rangeHead_apply, if_pos hk', ho']
    | breaksOff h =>
      exact .breaksOff (h.imp (fun h => eachRest_breaksOff hk (ho ▸ h) start)
        fun h => eachRest_breaksOff hk' (ho' ▸ h) start)
    | apart h h' _ => exact eachRest_apart ht hs hb hk (ho ▸ h) (ho' ▸ h') start

theorem eachStatement_before : FollowsBefore f (eachStatement run) (eachStatement run) := by
  rw [eachStatement_eq]
  exact followsBefore_advance.bind fun token =>
    follows_of (eachRest_before _) followsAt_of_takes

/-! ## Every rule -/

theorem ruleBody_before {rule : Rule} (ht : setup.table = .standard) (hs : Forked f s s')
    (hb : f.Before s) (hr : Suits s rule) :
    (rule.body run setup s).Follows f (rule.body run setup s') := by
  have of {step : Parse NodeId} (h : FollowsBefore f step step) :
      (step setup s).Follows f (step setup s') := h.follows ht hs hb
  have always (step : Parse NodeId) [h : Follows f step step] :
      (step setup s).Follows f (step setup s') := h.follows ht hs
  match rule, hr with
  | .form .statement, _ => exact of statement_before
  | .form .importStatement, _ => exact of importStatement_before
  | .form .doStatement, _ => exact of doStatement_before
  | .form .returnStatement, _ => exact of returnStatement_before
  | .form .yieldStatement, _ => exact always (yieldStatement run)
  | .form .ifStatement, _ => exact of ifStatement_before
  | .form .eachStatement, _ => exact of eachStatement_before
  | .form .matchStatement, _ => exact of matchStatement_before
  | .form .letStatement, _ => exact of letStatement_before
  | .form .typeExpression, _ => exact always (typeExpression run)
  | .form .primary, _ => exact of primary_before
  | .form .unary, _ => exact of unary_before
  | .form .grouping, _ => exact always (grouping run)
  | .form .array, _ => exact always (array run)
  | .form .block, _ => exact always (block run)
  | .expression power, _ => exact of (expression_before power)
  | .continuation left power, _ => exact always (continuation run left power)
  | .suffix .binary left power, _ => exact of (binary_before left power)
  | .suffix .call left _, _ => exact always (call run left)
  | .suffix .index left _, _ => exact always (index run left)
  | .suffix .member left _, _ => exact always (member left)
  | .tuple construct, _ => exact always (tuple run construct)
  | .pattern .any allowDefault, _ => exact of (pattern_before allowDefault)
  | .pattern .rest _, _ => exact always (restPattern run)
  | .pattern .named allowDefault, hn => exact namedPattern_follows ht hs hb hn allowDefault
  | .pattern .identifier allowDefault, _ =>
    exact always (identifierPattern run allowDefault)
  | .pattern .tuple _, _ => exact always (tuplePattern run)
  | .pattern .enum _, _ => exact always (enumPattern run)
  | .pattern .literal _, _ => exact always (literalPattern run)

end

omit [∀ rule, Keeps (run rule)] [FollowsRules f run] in
/-- Behind an operator an operand is wanted. -/
theorem binary_excused (ht : setup.table = .standard) (he : s.Ended) (hk : s.kind = .colon)
    (ha : f.At s.advance) (hi : f.item ≠ .expression) (left : NodeId) (power : Power) :
    (binary run left power setup s).Excused f := by
  have hoperand : (run (.expression power) setup s.advance).Excused f := by
    refine ha.excused (he.advance (State.hasTokens_of_kind hk (by decide))).2 ht fun hw => hi ?_
    have hended := (he.advance (State.hasTokens_of_kind hk (by decide))).2
    exact List.mem_singleton.1 (Takes.takes ht hended hended rfl hw).1
  obtain ⟨op, hop⟩ : ∃ op, BinaryOp.ofKind? s.kind = some op := by
    rw [hk]
    exact ⟨_, rfl⟩
  have hd : binary run left power setup s = (do
      let right ← run (.expression power)
      let leftSpan ← spanOf left
      push (.binary op left right) (leftSpan.merge (← spanOf right)) : Parse NodeId) setup
        s.advance := by
    simp only [binary, Bind.bind, Parse.bind, look, hop, advance]
  rw [hd]
  exact bind_excused hoperand

omit [Passing run] [Taking run] in
theorem continuation_excused (ht : setup.table = .standard) (he : s.Ended) (hk : s.kind = .colon)
    (ha : f.At s.advance) (hi : f.item ≠ .expression) (left : NodeId) :
    (continuation run left .lowest setup s).Excused f := by
  have hf : Table.suffixes s.kind = some (.compare, .binary) := by
    rw [hk]
    rfl
  rw [continuation_eq]
  change (iterate (suffixTurn run .lowest) (s.remaining + 1) left setup s).Excused f
  rw [iterate]
  refine @bind_excused _ _ _ _ _ _ _ (fun turn => ?_) ?_
  · cases turn with
    | again left => exact keeps_iterate s.remaining left
    | finish id => infer_instance
  · rw [suffixTurn_of_tighter ht left hf (by decide)]
    exact bind_excused (FollowsRules.colon ht he hk ha hi left).2

end

instance followsRules_runWith (f : Fork) (fuel : Nat) : FollowsRules f (Rule.runWith fuel) := by
  induction fuel with
  | zero =>
    exact {
      before := fun _ _ _ _ _ _ _ _ => .breaksOff (.inl trivial)
      continuation := fun _ _ => ⟨fun _ _ _ _ _ => .breaksOff (.inl trivial)⟩
      signature := fun _ _ _ _ _ => .inl (.breaksOff (.inl trivial))
      colon := fun _ _ _ _ _ _ _ => ⟨trivial, trivial⟩ }
  | succ fuel ih =>
    exact {
      before := fun _ _ ht _ _ hs hb hr => ruleBody_before ht hs hb hr
      continuation := fun left power => ⟨fun ht _ _ hs _ =>
        (inferInstance : Follows f (continuation (Rule.runWith fuel) left power)
          (continuation (Rule.runWith fuel) left power)).follows ht hs⟩
      signature := fun ht _ _ hs hb => signature_loosely ht hs hb
      colon := fun ht _ he hk ha hi left => ⟨continuation_excused ht he hk ha hi left,
        binary_excused ht he hk ha hi left .compare⟩ }

end Smaug.Parse
