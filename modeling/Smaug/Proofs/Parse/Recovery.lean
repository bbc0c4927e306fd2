import Mathlib
import Smaug.Proofs.Parse.Settled.Rules

/-! # Recovery accounts for every token

In recover mode the tokens of a module fall into segments, one behind the other: each is read to one
node at the top level, or is given up for one error.  Where a segment that is given up ends depends
on where it starts and on where the error was raised.
-/

namespace Smaug

/-- Whether recovery takes a token for the start of a statement, or for the end of the input. -/
def Token.Kind.startsAgain (kind : Token.Kind) : Bool := [.letWord, .importWord, .eof].contains kind

def placeFrom (tokens : List Token) (sought : Token.Kind → Bool) (place : Nat) : Nat :=
  place + (tokens.drop place).findIdx fun token => sought token.kind

/-- Where the parse goes on that has failed at `failed` in what starts at `start`. -/
def resumeAt (tokens : List Token) (start failed : Nat) : Nat :=
  if failed = start ∧ (tokens[start]?.map Token.kind) = some .closeCurly then start + 1
  else
    let place := if start < failed then failed else start + 1
    min (placeFrom tokens Token.Kind.startsAgain place)
      (placeFrom tokens (· == .closeCurly) place + 1)

theorem lt_resumeAt (tokens : List Token) {start failed : Nat} (h : start ≤ failed) :
    start < resumeAt tokens start failed ∧ failed ≤ resumeAt tokens start failed := by
  unfold resumeAt
  split
  · omega
  · simp only [placeFrom]
    split <;> omega

/-- What becomes of some tokens in a row. -/
inductive Segment where
  /-- They are read to a node at the top level. -/
  | node (id : NodeId)
  /-- They are given up for an error. -/
  | failure (error : Error)

namespace Segment

def node? : Segment → Option NodeId
  | node id => some id
  | failure _ => none

def error? : Segment → Option Error
  | node _ => none
  | failure error => some error

end Segment

inductive Segments (tokens : List Token) (nodes : Array Node) : Nat → List Segment → Prop
  | nil (h : start + 1 = tokens.length) : Segments tokens nodes start []
  | node {stop : Nat} {first last : Token} {id : NodeId} {node : Node} {segments : List Segment}
      (hlt : start < stop) (hf : tokens[start]? = some first)
      (hl : tokens[stop - 1]? = some last) (hn : nodes[id]? = some node)
      (hs : node.span = ⟨first.span.start, last.span.stop⟩)
      (h : Segments tokens nodes stop segments) :
      Segments tokens nodes start (.node id :: segments)
  | failure {stop failed : Nat} {token : Token} {error : Error} {segments : List Segment}
      (hlt : start < stop) (hle : start ≤ failed) (hle' : failed ≤ stop)
      (ht : tokens[failed]? = some token) (hr : error.RaisedAt token)
      (hs : stop = resumeAt tokens start failed) (h : Segments tokens nodes stop segments) :
      Segments tokens nodes start (.failure error :: segments)

namespace Segments

variable {tokens : List Token} {nodes : Array Node} {place start : Nat} {segments : List Segment}

theorem lt_length (h : Segments tokens nodes place segments) : place < tokens.length := by
  induction h with
  | nil h => omega
  | node hlt _ _ _ _ _ ih => omega
  | failure hlt _ _ _ _ _ _ ih => omega

/-- A node starts with a token of the segments. -/
theorem span_start (h : Segments tokens nodes place segments) {id : NodeId} {node : Node}
    (hi : id ∈ segments.filterMap Segment.node?) (hn : nodes[id]? = some node) :
    ∃ i first, place ≤ i ∧ tokens[i]? = some first ∧ node.span.start = first.span.start := by
  induction h with
  | nil => cases hi
  | @node place stop first _ _ _ segments hlt hf _ hn' hs _ ih =>
    rcases List.mem_cons.1 hi with rfl | hi
    · obtain rfl := Option.some.inj (hn'.symm.trans hn)
      exact ⟨place, first, Nat.le_refl _, hf, by rw [hs]⟩
    · obtain ⟨i, first, hle, hf, hs⟩ := ih hi
      exact ⟨i, first, by omega, hf, hs⟩
  | failure hlt _ _ _ _ _ _ ih =>
    obtain ⟨i, first, hle, hf, hs⟩ := ih hi
    exact ⟨i, first, by omega, hf, hs⟩

/-- Where nothing is given up, every token lies within a node. -/
theorem covered (h : Segments tokens nodes place segments) (ho : InOrder start tokens)
    (he : segments.filterMap Segment.error? = []) {i : Nat} {token : Token} (hle : place ≤ i)
    (hi : tokens[i]? = some token) (hk : token.kind ≠ .eof) :
    ∃ id ∈ segments.filterMap Segment.node?, ∃ node, nodes[id]? = some node ∧
      node.span.contains token.span := by
  induction h with
  | nil h =>
    have hlt := (List.getElem?_eq_some_iff.1 hi).1
    exact absurd ((ho.kind_eq_eof hi).2 (by omega)) hk
  | @node place stop first last id node segments hlt hf hl hn hs h ih =>
    rcases Nat.lt_or_ge i stop with hlt' | hge
    · refine ⟨id, List.mem_cons_self, node, hn, ?_⟩
      have hnext := List.getElem?_eq_getElem h.lt_length
      have hlast := (ho.lt_of_lt (show stop - 1 < stop by omega) hl hnext).1
      have hstart := ho.start_le_of_le hle hf hi
      have hstop := ho.stop_le_of_le (show i ≤ stop - 1 by omega) hi hl hlast
      simp [Span.contains, hs, hstart, hstop]
    · obtain ⟨id, hid, h⟩ := ih he hge
      exact ⟨id, List.mem_cons_of_mem _ hid, h⟩
  | failure => cases he

/-- Where something is given up, some token lies within no node. -/
theorem uncovered (h : Segments tokens nodes place segments) (ho : InOrder start tokens)
    (he : segments.filterMap Segment.error? ≠ []) :
    ∃ i token, place ≤ i ∧ tokens[i]? = some token ∧ token.kind ≠ .eof ∧
      ∀ id ∈ segments.filterMap Segment.node?, ∀ node, nodes[id]? = some node →
        node.span.contains token.span = false := by
  induction h with
  | nil => exact absurd rfl he
  | @node place stop first last id node segments hlt hf hl hn hs _ ih =>
    obtain ⟨i, token, hle, hi, hk, hnot⟩ := ih he
    refine ⟨i, token, by omega, hi, hk, fun id' hid' node' hn' => ?_⟩
    rcases List.mem_cons.1 hid' with rfl | hid'
    · obtain rfl := Option.some.inj (hn.symm.trans hn')
      have hll := ho.lt_of_lt (show stop - 1 < i by omega) hl hi
      have hlt := ho.start_lt_stop (List.mem_of_getElem? hi) hk
      simp [Span.contains, hs]
      omega
    · exact hnot id' hid' node' hn'
  | @failure place stop failed token error segments hlt hle hle' ht hr hstop h _ =>
    have hlen := h.lt_length
    have hi := List.getElem?_eq_getElem (show place < tokens.length by omega)
    refine ⟨place, _, Nat.le_refl _, hi, ?_, fun id hid node hn => ?_⟩
    · rw [Ne, ho.kind_eq_eof hi]
      omega
    · obtain ⟨i, first, hge, hf, hs⟩ := h.span_start hid hn
      have hlt := ho.lt_of_lt (show place < i by omega) hi hf
      simp [Span.contains, hs]
      omega

theorem errors_eq_nil (h : Segments tokens nodes 0 segments) (ho : InOrder start tokens) :
    segments.filterMap Segment.error? = [] ↔ ∀ token ∈ tokens, token.kind ≠ .eof →
      ∃ id ∈ segments.filterMap Segment.node?, ∃ node, nodes[id]? = some node ∧
        node.span.contains token.span := by
  constructor
  · intro he token ht hk
    obtain ⟨i, hi⟩ := List.mem_iff_getElem?.1 ht
    exact h.covered ho he (Nat.zero_le i) hi hk
  · intro hc
    by_contra he
    obtain ⟨i, token, -, hi, hk, hnot⟩ := h.uncovered ho he
    obtain ⟨id, hid, node, hn, hs⟩ := hc token (List.mem_of_getElem? hi) hk
    rw [hnot id hid node hn] at hs
    cases hs

end Segments

namespace Parse

open Grammar

/-! ## Places of states -/

section
variable {tokens : List Token} {place : Nat} {s s' : State}

theorem State.Ended.advance_place (he : s.Ended) (ht : s.hasTokens)
    (hp : s.tokens = tokens.drop place) : s.advance.tokens = tokens.drop (place + 1) := by
  rw [← List.tail_drop, ← hp, (he.advance ht).1, List.tail_cons]

theorem current_of_place (hp : s.tokens = tokens.drop place) : tokens[place]? = some s.current := by
  have h : (tokens.drop place)[0]? = some s.current := by
    rw [← hp]
    rfl
  simpa using h

theorem Grown.drop (h : Grown s s') (hp : s.tokens = tokens.drop place) :
    s'.tokens = tokens.drop (place + (s.remaining - s'.remaining)) := by
  obtain ⟨passed, ht, -⟩ := h.tokens
  have hn : s.remaining - s'.remaining = passed.length := by
    rw [← State.length_tokens, ← State.length_tokens, ht, List.length_append]
    omega
  rw [hn, ← List.drop_drop, ← hp, ht, List.drop_left]

theorem remaining_lt_of_place {place' : Nat} (hp : s.tokens = tokens.drop place)
    (hp' : s'.tokens = tokens.drop place') (h : place < place') : s'.remaining < s.remaining := by
  have hs := congrArg List.length hp
  have hs' := congrArg List.length hp'
  rw [State.length_tokens, List.length_drop] at hs hs'
  have := s'.remaining_pos
  omega

/-- The last token passed is the one before the place that a parse has come to. -/
theorem Grown.last_passed (h : Grown s s') (hlt : s'.remaining < s.remaining)
    (hp : s.tokens = tokens.drop place) :
    ∃ last, tokens[place + (s.remaining - s'.remaining) - 1]? = some last ∧
      s'.lastStop = last.span.stop := by
  obtain ⟨passed, ht, -, hl⟩ := h.tokens
  obtain rfl | ⟨before, last, rfl⟩ := List.eq_nil_or_concat passed
  · rw [← State.length_tokens, ← State.length_tokens, ht] at hlt
    simp at hlt
  · refine ⟨last, ?_, by simp [hl, stopAfter]⟩
    have hn : place + (s.remaining - s'.remaining) - 1 = place + before.length := by
      rw [← State.length_tokens, ← State.length_tokens, ht]
      simp
      omega
    rw [hn, ← List.getElem?_drop, ← hp, ht]
    simp

/-! ## Going on after a failure -/

/-- Tokens are skipped up to the first that starts a statement again, or past the first closing
brace if that comes before. -/
theorem skipStatement_tokens (he : s.Ended) {n : Nat} (hn : s.remaining ≤ n) :
    (skipStatement n s).tokens =
      s.tokens.drop (min (s.tokens.findIdx (·.kind.startsAgain))
        (s.tokens.findIdx (·.kind == .closeCurly) + 1)) := by
  induction n generalizing s with
  | zero => exact absurd hn (Nat.not_le_of_lt s.remaining_pos)
  | succ n ih =>
    rw [skipStatement]
    have hc : s.tokens = s.current :: s.ahead := rfl
    have first (h : s.kind.startsAgain) :
        s.tokens = s.tokens.drop (min (s.tokens.findIdx (·.kind.startsAgain))
          (s.tokens.findIdx (·.kind == .closeCurly) + 1)) := by
      have h : s.current.kind.startsAgain = true := h
      simp [hc, List.findIdx_cons, h]
    split
    · rename_i hk
      exact first (by rw [hk]; rfl)
    · rename_i hk
      exact first (by rw [hk]; rfl)
    · rename_i hk
      exact first (by rw [hk]; rfl)
    · rename_i hk
      have ht := State.hasTokens_of_kind hk (by decide)
      have hk : s.current.kind = .closeCurly := hk
      have hs : Token.Kind.startsAgain .closeCurly = false := rfl
      rw [(he.advance ht).1]
      simp [List.findIdx_cons, hk, hs]
    · rename_i h₁ h₂ h₃ h₄
      have ht : s.hasTokens := by simpa [State.hasTokens] using h₁
      have hc : (s.current.kind == .closeCurly) = false := beq_eq_false_iff_ne.2 h₄
      have hs : s.current.kind.startsAgain = false := by
        have h₁ : s.current.kind ≠ .eof := h₁
        have h₂ : s.current.kind ≠ .letWord := h₂
        have h₃ : s.current.kind ≠ .importWord := h₃
        simp [Token.Kind.startsAgain, h₁, h₂, h₃]
      have hlt := he.remaining_advance ht
      rw [ih (he.advance ht).2 (by omega), (he.advance ht).1]
      simp [List.findIdx_cons, hc, hs, Nat.add_min_add_right]

theorem skipStatement_place (he : s.Ended) (hp : s.tokens = tokens.drop place) {n : Nat}
    (hn : s.remaining ≤ n) :
    (skipStatement n s).tokens =
      tokens.drop (min (placeFrom tokens Token.Kind.startsAgain place)
        (placeFrom tokens (· == .closeCurly) place + 1)) := by
  rw [skipStatement_tokens he hn, hp, List.drop_drop, placeFrom, placeFrom, Nat.add_assoc,
    Nat.add_min_add_left]

theorem recover_place (he : s.Ended) (ht : s.hasTokens) (hp : s.tokens = tokens.drop place)
    (h : Kept s s') :
    (recover s.mark s').tokens =
      tokens.drop (resumeAt tokens place (place + (s.remaining - s'.remaining))) := by
  have hd := h.toGrown.drop hp
  have hle := h.remaining_le
  have hed : (s'.discard s.mark).Ended := he.grow (State.discard_mark h.toGrown).1.toGrown
  unfold recover resumeAt
  dsimp only
  by_cases hr : s'.remaining = s.remaining
  · have hs : s'.tokens = s.tokens := by
      rw [hd, hr, Nat.sub_self, hp]
      rfl
    obtain ⟨hc, ha⟩ : s'.current = s.current ∧ s'.ahead = s.ahead := List.cons_eq_cons.1 hs
    have htd : (s'.discard s.mark).hasTokens := by
      change (s'.current.kind != .eof) = true
      rw [hc]
      exact ht
    have hk : (s'.discard s.mark).kind = s.kind := congrArg Token.kind hc
    have hpd : (s'.discard s.mark).tokens = tokens.drop place := hs.trans hp
    have hpa := hed.advance_place htd hpd
    rw [if_pos ⟨congrArg List.length ha, htd⟩, hr, Nat.sub_self, Nat.add_zero, hk,
      current_of_place hp]
    by_cases hb : s.kind = .closeCurly
    · rw [if_pos hb, if_pos ⟨rfl, congrArg some hb⟩, hpa]
    · have hb' : ¬(place = place ∧ Option.map Token.kind (some s.current) =
          some .closeCurly) := fun h => hb (Option.some.inj h.2)
      rw [if_neg hb, if_neg hb', if_neg (Nat.lt_irrefl _),
        skipStatement_place (hed.advance htd).2 hpa (Nat.le_refl _)]
  · have hlt : place < place + (s.remaining - s'.remaining) := by omega
    have ha : ¬((s'.discard s.mark).ahead.length = s.mark.ahead.length ∧
        (s'.discard s.mark).hasTokens) := fun h => hr (congrArg (· + 1) h.1)
    rw [if_neg ha, if_neg (fun h => Nat.ne_of_gt hlt h.1), if_pos hlt,
      skipStatement_place hed hd (Nat.le_refl _)]

/-! ## One segment -/

/-- What is read to a node that reaches over its tokens is a segment. -/
theorem segments_of_read {start : Nat} {nodes : Array Node} {id : NodeId} {segments : List Segment}
    (ho : InOrder start tokens) (hp : s.tokens = tokens.drop place) (h : Grown s s')
    (hlt : s'.remaining < s.remaining) (hs : SpansBetween s id s')
    (hn : ∀ {node}, s'.nodes[id]? = some node → nodes[id]? = some node)
    (hrest : Segments tokens nodes (place + (s.remaining - s'.remaining)) segments) :
    Segments tokens nodes place (.node id :: segments) := by
  obtain ⟨node, hid, hspan⟩ := hs
  obtain ⟨last, hl, hstop⟩ := h.last_passed hlt hp
  have hf := current_of_place hp
  have hnext := current_of_place (h.drop hp)
  have hle : s.current.span.start ≤ last.span.stop := by
    have hfl := ho.start_le_of_le (by omega) hf hl
    have hln := ho.lt_of_lt (by omega) hl hnext
    omega
  refine .node (by omega) hf hl (hn hid) ?_ hrest
  rw [hspan, State.spanFrom, hstop, Nat.max_eq_left hle]

/-- What fails is given up up to the place where the parse goes on. -/
theorem segments_of_failure {nodes : Array Node} {error : Error} {segments : List Segment}
    (hp : s.tokens = tokens.drop place) (h : Grown s s') (hr : error.RaisedAt s'.current)
    (hrest : Segments tokens nodes
      (resumeAt tokens place (place + (s.remaining - s'.remaining))) segments) :
    Segments tokens nodes place (.failure error :: segments) :=
  have hlt := lt_resumeAt tokens (Nat.le_add_right place (s.remaining - s'.remaining))
  .failure hlt.1 (Nat.le_add_right _ _) hlt.2 (current_of_place (h.drop hp)) hr rfl hrest

/-! ## All segments -/

theorem length_of_not_hasTokens {start : Nat} (ho : InOrder start tokens)
    (hp : s.tokens = tokens.drop place) (ht : s.hasTokens = false) : place + 1 = tokens.length := by
  have hk : s.current.kind = .eof := by simpa [State.hasTokens, State.kind] using ht
  exact (ho.kind_eq_eof (current_of_place hp)).1 hk

/-- From a state at `place` the tokens left fall into segments, and the nodes and errors of these
are what a parse has come to in addition. -/
def Accounts (tokens : List Token) (place : Nat) (s : State) (ids : Array NodeId)
    (errors : Array Error) (progress : Progress) : Prop :=
  ∃ s' segments, progress.state = some s' ∧ Grown s s' ∧ Segments tokens s'.nodes place segments ∧
    progress.statements.toList = ids.toList ++ segments.filterMap Segment.node? ∧
    progress.errors.toList = errors.toList ++ segments.filterMap Segment.error?

theorem topLevel_accounts {setup : Setup} (htable : setup.table = .standard) {start : Nat}
    (ho : InOrder start tokens) {turns : Nat} {ids : Array NodeId} {errors : Array Error}
    (he : s.Ended) (hn : s.remaining ≤ turns) (hp : s.tokens = tokens.drop place)
    (hr : ∀ error ∈ (topLevel setup false turns s ids errors).errors,
      error.classify ≠ .resource) :
    Accounts tokens place s ids errors (topLevel setup false turns s ids errors) := by
  induction turns generalizing s place ids errors with
  | zero => exact absurd hn (Nat.not_le_of_lt s.remaining_pos)
  | succ turns ih =>
    cases ht : s.hasTokens with
    | false =>
      rw [topLevel_end ht]
      exact ⟨s, [], rfl, .refl s, .nil (length_of_not_hasTokens ho hp ht), (List.append_nil _).symm,
        (List.append_nil _).symm⟩
    | true =>
      have hk := keeps (Rule.form .statement).parse setup s
      have hset : ((Rule.form .statement).parse setup s).IsSettled :=
        parse_isSettled htable he trivial (List.forall_mem_nil _)
      cases hd : (Rule.form .statement).parse setup s with
      | done id s₁ =>
        rw [hd] at hk
        have hlt := passes (Rule.form .statement).parse htable he hd
        rw [topLevel_statement ht hd] at hr ⊢
        obtain ⟨s', segments, hstate, hg, hs, hids, herrors⟩ :=
          ih (he.grow hk.toGrown) (by omega) (hk.toGrown.drop hp) hr
        refine ⟨s', .node id :: segments, hstate, hk.toGrown.trans hg, ?_, ?_, herrors⟩
        · exact segments_of_read ho hp hk.toGrown hlt (statement_spans htable hd) hg.getElem? hs
        · rw [hids, Array.toList_push, List.append_assoc]
          rfl
      | stopped why s₁ =>
        rw [hd] at hk hset
        cases why with
        | missingNode => exact absurd hset id
        | exhausted => exact absurd hset id
        | error error =>
          by_cases hc : error.classify = .resource
          · rw [topLevel_limit ht hd hc] at hr
            exact absurd hc (hr error (by simp))
          · rw [topLevel_recover ht hd hc] at hr ⊢
            obtain ⟨hkr, -⟩ := recover_kept hk.toGrown
            have hpr := recover_place he ht hp hk
            have hlt : (recover s.mark s₁).remaining < s.remaining :=
              remaining_lt_of_place hp hpr (lt_resumeAt tokens (Nat.le_add_right _ _)).1
            obtain ⟨s', segments, hstate, hg, hs, hids, herrors⟩ :=
              ih (he.grow hkr.toGrown) (by omega) hpr hr
            refine ⟨s', .failure error :: segments, hstate, hkr.toGrown.trans hg, ?_, hids, ?_⟩
            · exact segments_of_failure hp hk.toGrown hset hs
            · rw [herrors, Array.toList_push, List.append_assoc]
              rfl

end

/-! ## The header -/

theorem header_passes {setup : Setup} {s s' : State} {id : NodeId} (he : s.Ended)
    (h : header setup s = .done (some id) s') : s'.remaining < s.remaining := by
  simp only [header, bind_done, look_done, eatWord_done] at h
  obtain ⟨_, s, ⟨rfl, rfl⟩, _, _, ⟨rfl, rfl⟩, h⟩ := h
  cases hm : s.current.isWord "module" with
  | true =>
    simp only [hm, if_true] at h
    have hlt := he.remaining_advance (State.hasTokens_of_isWord hm)
    exact Nat.lt_of_le_of_lt (kept_of_done h).remaining_le hlt
  | false => simp [hm, pure_done] at h

theorem hasTokens_of_header {setup : Setup} {s s' : State} {why : Stop}
    (h : header setup s = .stopped why s') : s.hasTokens := by
  cases hm : s.current.isWord "module" with
  | true => exact State.hasTokens_of_isWord hm
  | false => cases (header_none hm).symm.trans h

end Parse

open Parse

namespace Parsed

variable {tokens : List Token} {start : Nat} {file : String} {trivia : Array Trivia}

def Accounted (tokens : List Token) (parsed : Parsed) : Prop :=
  ∃ segments, Segments tokens parsed.tree.nodes 0 segments ∧
    segments.filterMap Segment.node? = parsed.tree.roots ∧
    segments.filterMap Segment.error? = parsed.errors ∧
    ∀ id, parsed.tree.header = some id → segments.head? = some (.node id)

theorem accounted_of_header {setup : Setup} (htable : setup.table = .standard)
    (ho : InOrder start tokens) {s s' : State} {first : Option NodeId} (he : s.Ended)
    (hp : s.tokens = tokens.drop 0) (h : header setup s = .done first s')
    (hr : ∀ error ∈ (ofProgress file trivia first (moduleBody setup false s' #[])).errors,
      error.classify ≠ .resource) :
    Accounted tokens (ofProgress file trivia first (moduleBody setup false s' #[])) := by
  have hk := kept_of_done h
  obtain ⟨s'', segments, hstate, hg, hs, hids, herrors⟩ :=
    topLevel_accounts htable ho (he.grow hk.toGrown) (Nat.le_refl _) (hk.toGrown.drop hp)
      fun error hm => hr error (Array.mem_toList_iff.2 hm)
  have hnodes : (ofProgress file trivia first (moduleBody setup false s' #[])).tree.nodes =
      s''.nodes := by
    simp only [ofProgress, moduleBody, hstate]
  have hroots : (ofProgress file trivia first (moduleBody setup false s' #[])).tree.roots =
      first.toList ++ segments.filterMap Segment.node? := by
    simp only [Tree.roots, ofProgress, moduleBody, hstate, hids]
    rfl
  have herrors : (ofProgress file trivia first (moduleBody setup false s' #[])).errors =
      segments.filterMap Segment.error? := herrors
  have hhead : (ofProgress file trivia first (moduleBody setup false s' #[])).tree.header =
      first := by
    simp only [ofProgress, moduleBody, hstate]
  rw [Accounted, hnodes, hroots, herrors, hhead]
  have hread := header_done h
  cases first with
  | none =>
    obtain rfl : s' = s := by
      cases hread
      rfl
    rw [Nat.sub_self] at hs
    exact ⟨segments, hs, rfl, rfl, fun id hid => by cases hid⟩
  | some id =>
    refine ⟨.node id :: segments, ?_, rfl, rfl, fun id' hid => by cases hid; rfl⟩
    exact segments_of_read ho hp hk.toGrown (header_passes he h) hread.spans hg.getElem? hs

theorem accounted_of_failure {setup : Setup} (htable : setup.table = .standard)
    (ho : InOrder start tokens) {s s' : State} {error : Error} (he : s.Ended)
    (hp : s.tokens = tokens.drop 0) (h : header setup s = .stopped (.error error) s')
    (hr : ∀ e ∈ (ofProgress file trivia none
      (moduleBody setup false (recover s.mark s') #[error])).errors, e.classify ≠ .resource) :
    Accounted tokens
      (ofProgress file trivia none (moduleBody setup false (recover s.mark s') #[error])) := by
  have hk : Kept s s' := by
    have hk := keeps header setup s
    rw [h] at hk
    exact hk
  have hset : error.RaisedAt s'.current := by
    have hset := header_isSettled htable he
    rw [h] at hset
    exact hset
  have hkr := (recover_kept hk.toGrown).1
  obtain ⟨s'', segments, hstate, hg, hs, hids, herrors⟩ :=
    topLevel_accounts htable ho (he.grow hkr.toGrown) (Nat.le_refl _)
      (recover_place he (hasTokens_of_header h) hp hk)
      fun error hm => hr error (Array.mem_toList_iff.2 hm)
  refine ⟨.failure error :: segments, ?_, ?_, herrors.symm, fun id hid => ?_⟩
  · simp only [ofProgress, moduleBody, hstate]
    exact segments_of_failure hp hk.toGrown hset hs
  · simp only [Tree.roots, ofProgress, moduleBody, hstate, hids]
    rfl
  · simp [ofProgress, moduleBody, hstate] at hid

end Parsed

/-- What the parse of a module comes to in recover mode, within the limits. -/
theorem Parsed.ofTokens_accounted {tokens : Tokens} {file : String} {options : Options}
    {start : Nat} (ho : InOrder start tokens.tokens) (hm : options.mode = .recover)
    (hr : ∀ error ∈ (ofTokens tokens file options).errors, error.classify ≠ .resource) :
    Accounted tokens.tokens (ofTokens tokens file options) := by
  have hstrict : options.isStrict = false := by simp [Options.isStrict, hm]
  have hp : (State.start tokens.tokens).tokens = tokens.tokens.drop 0 := by
    rw [State.start_tokens, State.ended_of_inOrder ho, List.drop_zero]
  have he := State.start_ended tokens.tokens
  have hset : (header (.standard file options) (State.start tokens.tokens)).IsSettled :=
    header_isSettled rfl he
  unfold ofTokens at hr ⊢
  dsimp only at hr ⊢
  cases hd : header (.standard file options) (State.start tokens.tokens) with
  | done first s =>
    simp only [hd, hstrict] at hr ⊢
    exact accounted_of_header rfl ho he hp hd hr
  | stopped why s =>
    rw [hd] at hset
    cases why with
    | missingNode => exact absurd hset id
    | exhausted => exact absurd hset id
    | error error =>
      simp only [hd, hstrict] at hr ⊢
      exact accounted_of_failure rfl ho he hp hd hr

/-- In recover mode, and within the limits, every token belongs to what stands at the top level or
is given up for an error: to the one node or the one error of its segment. -/
theorem Parsed.ofSource_accounts {source file : String} {options : Options} {tokens : Tokens}
    (ht : Tokens.ofSource source file options = .ok tokens) (hm : options.mode = .recover)
    (hr : ∀ error ∈ (ofSource source file options).errors, error.classify ≠ .resource) :
    let parsed := ofSource source file options
    (∃ segments, Segments tokens.tokens parsed.tree.nodes 0 segments ∧
      segments.filterMap Segment.node? = parsed.tree.roots ∧
      segments.filterMap Segment.error? = parsed.errors ∧
      ∀ id, parsed.tree.header = some id → segments.head? = some (.node id)) ∧
    parsed.tree.roots.Nodup ∧
    (parsed.errors = [] ↔ ∀ token ∈ tokens.tokens, token.kind ≠ .eof →
      ∃ id ∈ parsed.tree.roots, ∃ node, parsed.tree.get? id = some node ∧
        node.span.contains token.span) := by
  have ho := Tokens.ofSource_inOrder ht
  rw [ofSource_eq_ofTokens ht] at hr ⊢
  intro parsed
  obtain ⟨segments, hs, hnodes, herrors, hhead⟩ := ofTokens_accounted ho hm hr
  have hnodup : parsed.tree.roots.Nodup := by
    have hf : Forest parsed.tree.nodes parsed.tree.roots := ofTokens_forest tokens file options
    exact (hf.once.symm.nodup List.nodup_range).of_append_left
  refine ⟨⟨segments, hs, hnodes, herrors, hhead⟩, hnodup, ?_⟩
  rw [← herrors, ← hnodes]
  exact hs.errors_eq_nil ho

theorem Parsed.ofSource_accounts_brace :
    let tokens : Tokens :=
      { tokens :=
          [⟨.closeCurly, "\x7d", ⟨0, 1⟩⟩, ⟨.doWord, "do", ⟨2, 4⟩⟩, ⟨.identifier, "a", ⟨5, 6⟩⟩,
            .endAt (.emptyAt 6)]
        trivia := #[⟨.whitespace, ⟨1, 2⟩⟩, ⟨.whitespace, ⟨4, 5⟩⟩] }
    let parsed := ofSource "\x7d do a" "brace.sm" {}
    Tokens.ofSource "\x7d do a" "brace.sm" {} = .ok tokens ∧
      (∀ error ∈ parsed.errors, error.classify ≠ .resource) ∧
      ∃ segments, Segments tokens.tokens parsed.tree.nodes 0 segments ∧
        segments.filterMap Segment.node? = parsed.tree.roots ∧
        segments.filterMap Segment.error? = parsed.errors := by
  intro tokens parsed
  have ht : Tokens.ofSource "\x7d do a" "brace.sm" {} = .ok tokens := by decide +kernel
  have hr : ∀ error ∈ parsed.errors, error.classify ≠ .resource := by decide +kernel
  obtain ⟨⟨segments, hs, hn, he, -⟩, -⟩ := ofSource_accounts ht rfl hr
  exact ⟨ht, hr, segments, hs, hn, he⟩

end Smaug
