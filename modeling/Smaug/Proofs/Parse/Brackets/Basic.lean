import Mathlib
import Smaug.Proofs.Parse.Passing

/-! # Open brackets

An opening bracket is open until a closing one comes.  A step that yields a value has closed the
brackets it has opened, and where the input ends before that, the innermost of them is blamed: the
construct that it opens is the first to claim the error.
-/

namespace Smaug

def Token.Kind.opening? : Kind → Option Char
  | openParen => some '('
  | openBracket => some '['
  | openCurly => some '\x7b'
  | _ => none

def Token.Kind.isClosing : Kind → Bool
  | closeParen | closeBracket | closeCurly => true
  | _ => false

def Token.nest (opened : List Token) (token : Token) : List Token :=
  if token.kind.opening?.isSome then token :: opened
  else if token.kind.isClosing then opened.tail
  else opened

/-- The brackets of a list of tokens that are still open after it, the innermost first. -/
def openBrackets (tokens : List Token) : List Token := tokens.foldl Token.nest []

class Token.Kind.Plain (kind : Kind) : Prop where
  opening : kind.opening? = none
  closing : kind.isClosing = false
  ne_eof : kind ≠ .eof

namespace Token

instance : Kind.Plain .integer := ⟨rfl, rfl, by decide⟩
instance : Kind.Plain .string := ⟨rfl, rfl, by decide⟩
instance : Kind.Plain .identifier := ⟨rfl, rfl, by decide⟩
instance : Kind.Plain .builtIn := ⟨rfl, rfl, by decide⟩
instance : Kind.Plain .assignment := ⟨rfl, rfl, by decide⟩
instance : Kind.Plain .dot := ⟨rfl, rfl, by decide⟩
instance : Kind.Plain .ellipsis := ⟨rfl, rfl, by decide⟩
instance : Kind.Plain .colon := ⟨rfl, rfl, by decide⟩
instance : Kind.Plain .comma := ⟨rfl, rfl, by decide⟩
instance : Kind.Plain .importWord := ⟨rfl, rfl, by decide⟩
instance : Kind.Plain .letWord := ⟨rfl, rfl, by decide⟩
instance : Kind.Plain .structWord := ⟨rfl, rfl, by decide⟩
instance : Kind.Plain .enumWord := ⟨rfl, rfl, by decide⟩
instance : Kind.Plain .doWord := ⟨rfl, rfl, by decide⟩
instance : Kind.Plain .yieldWord := ⟨rfl, rfl, by decide⟩
instance : Kind.Plain .returnWord := ⟨rfl, rfl, by decide⟩
instance : Kind.Plain .ifWord := ⟨rfl, rfl, by decide⟩
instance : Kind.Plain .inWord := ⟨rfl, rfl, by decide⟩
instance : Kind.Plain .eachWord := ⟨rfl, rfl, by decide⟩
instance : Kind.Plain .matchWord := ⟨rfl, rfl, by decide⟩
instance : Kind.Plain .caseWord := ⟨rfl, rfl, by decide⟩
instance : Kind.Plain .externalWord := ⟨rfl, rfl, by decide⟩

theorem nest_opening {token : Token} {delimiter : Char}
    (h : token.kind.opening? = some delimiter) (opened : List Token) :
    token.nest opened = token :: opened := by
  simp [nest, h]

theorem nest_closing {token : Token} (h : token.kind.isClosing) (opened : List Token) :
    token.nest opened = opened.tail := by
  have ho : token.kind.opening? = none := by
    cases hk : token.kind <;> simp_all [Kind.isClosing, Kind.opening?]
  simp [nest, h, ho]

theorem nest_plain {token : Token} {kind : Kind} [hp : kind.Plain] (h : token.kind = kind)
    (opened : List Token) : token.nest opened = opened := by
  simp [nest, h, hp.opening, hp.closing]

end Token

/-- An end of the input at a token is blamed on the innermost of the open brackets, if there is
one. -/
def Error.Blames (error : Error) (last : Token) : List Token → Prop
  | [] => error.cause = .unexpectedEnd ∧ error.span = last.span
  | opening :: _ => ∃ delimiter construct, opening.kind.opening? = some delimiter ∧
      error.cause = .unclosedDelimiter delimiter construct ∧
      error.span = opening.span.merge last.span

/-- The construct of an open bracket claims the error unless a construct within it has. -/
theorem Error.Blames.inside {error : Error} {last opening : Token} {inner : List Token}
    (h : error.Blames last inner) {delimiter : Char}
    (hd : opening.kind.opening? = some delimiter) (construct : String) :
    (error.inside delimiter construct opening.span).Blames last (inner ++ [opening]) := by
  cases inner with
  | nil =>
    obtain ⟨hc, hs⟩ := h
    have he : error.isAtEnd := by simp [isAtEnd, hc]
    exact ⟨delimiter, construct, hd, by simp [Error.inside, he], by simp [Error.inside, he, hs]⟩
  | cons innermost inner =>
    obtain ⟨delimiter', construct', hd', hc, hs⟩ := h
    have he : error.isAtEnd = false := by simp [isAtEnd, hc]
    have hi : error.inside delimiter construct opening.span = error := by simp [Error.inside, he]
    exact ⟨delimiter', construct', hd', by rw [hi, hc], by rw [hi, hs]⟩

namespace Parse

open Grammar

namespace State

/-- The brackets open at the end of the input, where some are open already. -/
def openAtEnd (s : State) (opened : List Token) : List Token := s.tokens.foldl Token.nest opened

variable {s : State}

theorem hasTokens_of_opening {delimiter : Char} (h : s.current.kind.opening? = some delimiter) :
    s.hasTokens := by
  refine hasTokens_of_kind rfl ?_
  intro hk
  rw [show s.current.kind = .eof from hk] at h
  cases h

variable (he : s.Ended)
include he

theorem openAtEnd_advance (ht : s.hasTokens) (opened : List Token) :
    s.openAtEnd opened = s.advance.openAtEnd (s.current.nest opened) := by
  rw [openAtEnd, (he.advance ht).1, List.foldl_cons]
  rfl

theorem openAtEnd_opening {delimiter : Char} (h : s.current.kind.opening? = some delimiter)
    (opened : List Token) : s.openAtEnd opened = s.advance.openAtEnd (s.current :: opened) := by
  rw [openAtEnd_advance he (hasTokens_of_opening h), Token.nest_opening h]

theorem openAtEnd_plain {kind : Token.Kind} [hp : kind.Plain] (hk : s.kind = kind)
    (opened : List Token) : s.openAtEnd opened = s.advance.openAtEnd opened := by
  rw [openAtEnd_advance he (hasTokens_of_kind hk hp.ne_eof), Token.nest_plain hk]

end State

/-- What a step that starts at `s` does to the open brackets: a value makes `before` into `after`,
and an end of the input is blamed on the brackets that the step itself has left open. -/
def Outcome.Nests (before after : List Token → List Token) (s : State) : Outcome α → Prop
  | .done _ s' => ∀ opened, s.openAtEnd (before opened) = s'.openAtEnd (after opened)
  | .stopped (.error error) s' => s'.hasTokens = false → error.classify ≠ .resource →
    ∃ inner, error.Blames s'.current inner ∧
      ∀ opened, s.openAtEnd (before opened) = s'.openAtEnd (inner ++ opened)
  | .stopped .. => True

section
variable {before mid after after' : List Token → List Token} {s s₁ : State}

theorem Outcome.Nests.stopped {why : Stop} {s' : State}
    (h : (.stopped why s' : Outcome α).Nests before after s) :
    (.stopped why s' : Outcome β).Nests before after' s := by
  cases why <;> exact h

theorem Outcome.Nests.from {outcome : Outcome α} (h : outcome.Nests mid after s₁)
    (he : ∀ opened, s.openAtEnd (before opened) = s₁.openAtEnd (mid opened)) :
    outcome.Nests before after s := by
  cases outcome with
  | done value s' => exact fun opened => (he opened).trans (h opened)
  | stopped why s' =>
    cases why with
    | error error =>
      intro ht hc
      obtain ⟨inner, hb, h⟩ := h ht hc
      exact ⟨inner, hb, fun opened => (he opened).trans (h opened)⟩
    | missingNode => trivial
    | exhausted => trivial

theorem bind_nests {setup : Setup} {step : Parse α} {next : α → Parse β}
    (h : (step setup s).Nests before mid s)
    (hn : ∀ a s', step setup s = .done a s' → (next a setup s').Nests mid after s') :
    ((step >>= next) setup s).Nests before after s := by
  change (Parse.bind step next setup s).Nests before after s
  unfold Parse.bind
  cases ho : step setup s with
  | done a s' =>
    rw [ho] at h
    exact (hn a s' ho).from h
  | stopped why s' =>
    rw [ho] at h
    exact h.stopped

/-- A step whose errors the construct of an open bracket claims. -/
theorem inside_nests {setup : Setup} {step : Parse α} {opening : Token} {delimiter : Char}
    (hd : opening.kind.opening? = some delimiter) (construct : String)
    (h : (step setup s).Nests id after s) :
    (inside delimiter construct opening.span step setup s).Nests (opening :: ·)
      (fun opened => after (opening :: opened)) s := by
  unfold inside mapError
  split
  · rename_i error s' ho
    rw [ho] at h
    intro ht hc
    rw [Error.classify_inside] at hc
    obtain ⟨inner, hb, h⟩ := h ht hc
    refine ⟨inner ++ [opening], hb.inside hd construct, fun opened => ?_⟩
    rw [List.append_assoc]
    exact h (opening :: opened)
  · rename_i hne
    cases ho : step setup s with
    | done value s' =>
      rw [ho] at h
      exact fun opened => h (opening :: opened)
    | stopped why s' =>
      cases why with
      | error error => exact absurd ho (hne error s')
      | missingNode => trivial
      | exhausted => trivial

end

/-! ## Kinds of steps -/

/-- A step that closes the brackets it opens. -/
class Balances (step : Parse α) : Prop where
  nests {setup : Setup} {s : State} (ht : setup.table = .standard) (he : s.Ended) :
    (step setup s).Nests id id s

/-- A step that closes one more bracket than it opens, at its end. -/
class Closes (step : Parse α) : Prop where
  nests {setup : Setup} {s : State} (ht : setup.table = .standard) (he : s.Ended) :
    (step setup s).Nests id List.tail s

/-- A step within an open bracket, whose construct claims its errors. -/
class Holds (delimiter : Char) (opening : Token) (step : Parse α) : Prop where
  nests {setup : Setup} {s : State} (ht : setup.table = .standard) (he : s.Ended)
    (hd : opening.kind.opening? = some delimiter) :
    (step setup s).Nests (opening :: ·) (opening :: ·) s

/-- A step that starts within an open bracket and closes it, and until then its construct claims the
errors. -/
class Encloses (delimiter : Char) (opening : Token) (step : Parse α) : Prop where
  nests {setup : Setup} {s : State} (ht : setup.table = .standard) (he : s.Ended)
    (hd : opening.kind.opening? = some delimiter) :
    (step setup s).Nests (opening :: ·) id s

theorem balances (step : Parse α) [h : Balances step] {setup : Setup} {s : State}
    (ht : setup.table = .standard) (he : s.Ended) : (step setup s).Nests id id s := h.nests ht he

section
variable {step : Parse α} {delimiter : Char} {opening : Token}

theorem balances_bind (step : Parse α) [Keeps step] [Balances step] {next : α → Parse β}
    (hn : ∀ a, Balances (next a)) : Balances (step >>= next) where
  nests ht he := bind_nests (balances step ht he) fun a _ ho =>
    (hn a).nests ht (he.grow (kept_of_done ho).toGrown)

instance {next : α → Parse β} [Keeps step] [Balances step] [hn : ∀ a, Balances (next a)] :
    Balances (step >>= next) := balances_bind step hn

instance {next : α → Parse β} [Keeps step] [Balances step] [hn : ∀ a, Closes (next a)] :
    Closes (step >>= next) where
  nests ht he := bind_nests (balances step ht he) fun a _ ho =>
    (hn a).nests ht (he.grow (kept_of_done ho).toGrown)

/-- Nothing that can fail comes after the closing bracket. -/
instance {f : α → β} [hc : Closes step] : Closes (step >>= fun a => pure (f a)) where
  nests ht he := bind_nests (hc.nests ht he) fun _ _ _ _ => rfl

instance {next : α → Parse β} [Keeps step] [h : Holds delimiter opening step]
    [hn : ∀ a, Encloses delimiter opening (next a)] : Encloses delimiter opening (step >>= next) where
  nests ht he hd := bind_nests (h.nests ht he hd) fun a _ ho =>
    (hn a).nests ht (he.grow (kept_of_done ho).toGrown) hd

instance {next : α → Parse β} [Keeps step] [h : Encloses delimiter opening step]
    [hn : ∀ a, Balances (next a)] : Encloses delimiter opening (step >>= next) where
  nests ht he hd := bind_nests (h.nests ht he hd) fun a _ ho =>
    (hn a).nests ht (he.grow (kept_of_done ho).toGrown)

instance (construct : String) [h : Balances step] :
    Holds delimiter opening (inside delimiter construct opening.span step) where
  nests ht he hd := inside_nests hd construct (h.nests ht he)

instance (construct : String) [h : Closes step] :
    Encloses delimiter opening (inside delimiter construct opening.span step) where
  nests ht he hd := inside_nests hd construct (h.nests ht he)

instance (value : α) : Balances (pure value) := ⟨fun _ _ _ => rfl⟩

instance (f : State → α) : Balances (look f) := ⟨fun _ _ _ => rfl⟩

instance (f : Setup → α) : Balances (given f) := ⟨fun _ _ _ => rfl⟩

instance (shape : Shape) (span : Span) : Balances (push shape span) := ⟨fun _ _ _ => rfl⟩

instance (id : NodeId) : Balances (node id) where
  nests _ _ := by
    unfold node
    split
    · exact fun _ => rfl
    · trivial

instance (f : α → β) [Keeps step] [Balances step] : Balances (f <$> step) :=
  inferInstanceAs (Balances (step >>= fun value => pure (f value)))

instance {c : Prop} [Decidable c] {other : Parse α} [Balances step] [Balances other] :
    Balances (if c then step else other) := by
  split <;> infer_instance

theorem nested_nests {setup : Setup} {s : State} (h : (step setup s.deeper).Nests id id s.deeper) :
    (nested step setup s).Nests id id s := by
  rw [nested_apply]
  split
  · split
    · rename_i ho
      rw [ho] at h
      exact h
    · rename_i ho
      rw [ho] at h
      exact h
    · rename_i why s' hne ho
      cases why with
      | error error => exact absurd rfl (hne error)
      | missingNode => trivial
      | exhausted => trivial
  · exact fun _ hc => absurd rfl hc

instance [h : Balances step] : Balances (nested step) where
  nests ht he := nested_nests (h.nests ht he)

end

/-! ## Loops -/

theorem iterate_balances {turn : α → Parse (Turn α β)} (hk : ∀ a, Keeps (turn a))
    (hb : ∀ a, Balances (turn a)) (turns : Nat) (a : α) : Balances (iterate turn turns a) := by
  induction turns generalizing a with
  | zero => exact ⟨fun _ _ => trivial⟩
  | succ turns ih =>
    refine balances_bind (turn a) fun result => ?_
    cases result with
    | again a => exact ih a
    | finish b => exact inferInstanceAs (Balances (pure b))

instance {turn : α → Parse (Turn α β)} [hk : ∀ a, Keeps (turn a)] [hb : ∀ a, Balances (turn a)]
    (a : α) : Balances (loop turn a) :=
  balances_bind (look State.remaining) fun n => iterate_balances hk hb (n + 1) a

instance {step : Parse (Option (α × Bool))} [Keeps step] [Balances step] :
    Balances (collect step) := by
  unfold collect
  have (items : List α) (item : Option (α × Bool)) : Balances (match item with
      | none => pure (.finish items.reverse)
      | some (item, true) => pure (.again (item :: items))
      | some (item, false) => pure (.finish (item :: items).reverse) :
        Parse (Turn (List α) (List α))) := by
    split <;> infer_instance
  have (items : List α) (item : Option (α × Bool)) : Keeps (match item with
      | none => pure (.finish items.reverse)
      | some (item, true) => pure (.again (item :: items))
      | some (item, false) => pure (.finish (item :: items).reverse) :
        Parse (Turn (List α) (List α))) := by
    split <;> infer_instance
  infer_instance

/-! ## Tokens and errors -/

section
variable {setup : Setup} {s : State} {after : List Token → List Token}

instance (kind : Token.Kind) : Balances (isAt kind) := inferInstanceAs (Balances (look _))

theorem advance_bind_nests {kind : Token.Kind} [hp : kind.Plain] {next : Token → Parse α}
    [hn : ∀ token, Balances (next token)] (ht : setup.table = .standard) (he : s.Ended)
    (hk : s.kind = kind) : ((advance >>= next) setup s).Nests id id s := by
  have hs := State.hasTokens_of_kind hk hp.ne_eof
  exact ((hn s.current).nests ht (he.advance hs).2).from (s.openAtEnd_plain he hk)

instance (kind : Token.Kind) [kind.Plain] : Balances (eat kind) where
  nests {setup s} ht he := by
    refine bind_nests (balances (isAt kind) ht he) fun b s hb => ?_
    obtain ⟨rfl, rfl⟩ := isAt_done.1 hb
    split
    · rename_i hs
      exact s.openAtEnd_plain he (beq_iff_eq.1 hs)
    · exact fun _ => rfl

instance (word : String) : Balances (eatWord word) where
  nests {setup s} ht he := by
    refine bind_nests (balances (look _) ht he) fun b s hb => ?_
    obtain ⟨rfl, rfl⟩ := look_done.1 hb
    split
    · rename_i hw
      have hk : s.kind = .identifier := by
        simp only [Token.isWord, Bool.and_eq_true, beq_iff_eq] at hw
        exact hw.1
      exact s.openAtEnd_plain he hk
    · exact fun _ => rfl

instance {sign : Parse Bool} {step : Parse α} [Keeps sign] [Keeps step] [Balances sign]
    [Balances step] : Balances (optionally sign step) := by
  unfold optionally; infer_instance

instance (expected : List Expected) (note : Option String) :
    Balances (unexpected expected note >>= fun error => refuse error : Parse α) where
  nests {setup s} _ _ := by
    intro hs _
    have hk : s.current.kind = .eof := by simpa [State.hasTokens, State.kind] using hs
    exact ⟨[], ⟨if_pos hk, rfl⟩, fun _ => rfl⟩

instance (expected : Expected) :
    Balances (misplaced expected >>= fun error => refuse error : Parse α) where
  nests {setup s} ht he := by
    unfold misplaced
    change (Parse.bind (Parse.bind (look State.current) _) _ setup s).Nests id id s
    cases hr : s.current.kind.isReserved with
    | true =>
      simp only [Parse.bind, look, hr, if_true]
      intro hs
      have hk : s.current.kind = .eof := by simpa [State.hasTokens, State.kind] using hs
      rw [hk] at hr
      cases hr
    | false =>
      simp only [Parse.bind, look, hr, Bool.false_eq_true, if_false]
      exact balances (unexpected [expected] >>= fun error => refuse error : Parse α) ht he

theorem expectOr_nests (kind : Token.Kind) (hne : kind ≠ .eof) {error : Parse Error}
    [Balances (error >>= fun error => refuse error : Parse Token)] (ht : setup.table = .standard)
    (he : s.Ended)
    (hk : s.current.kind = kind → ∀ opened, s.current.nest opened = after opened) :
    (expectOr kind error setup s).Nests id after s := by
  have hb := balances (error >>= fun error => refuse error : Parse Token) ht he
  refine bind_nests (balances (isAt kind) ht he) fun b s₁ hi => ?_
  obtain ⟨rfl, rfl⟩ := isAt_done.1 hi
  split
  · rename_i hs
    have hs : s₁.kind = kind := beq_iff_eq.1 hs
    intro opened
    rw [← hk hs]
    exact s₁.openAtEnd_advance he (State.hasTokens_of_kind hs hne) opened
  · cases ho : (error >>= fun error => refuse error : Parse Token) setup s₁ with
    | done token s' => simp [bind_done, refuse_done] at ho
    | stopped why s' =>
      rw [ho] at hb
      exact hb.stopped

instance (kind : Token.Kind) [hk : kind.Plain] {error : Parse Error}
    [Balances (error >>= fun error => refuse error : Parse Token)] :
    Balances (expectOr kind error) where
  nests ht he := expectOr_nests kind hk.ne_eof ht he Token.nest_plain

instance (kind : Token.Kind) [kind.Plain] : Balances (expect kind) := by
  unfold expect; infer_instance

theorem expectOr_closes {kind : Token.Kind} (hk : kind.isClosing) {error : Parse Error}
    [Balances (error >>= fun error => refuse error : Parse Token)] : Closes (expectOr kind error) where
  nests ht he := expectOr_nests kind (by rintro rfl; cases hk) ht he fun hs =>
    Token.nest_closing (hs ▸ hk)

/-- Every construct that an opening bracket opens claims the errors in it. -/
theorem expectOr_balances {kind : Token.Kind} {delimiter : Char}
    (hd : kind.opening? = some delimiter) {error : Parse Error} [Keeps error]
    [Balances (error >>= fun error => refuse error : Parse Token)] {next : Token → Parse α}
    (hn : ∀ opening, Encloses delimiter opening (next opening)) :
    Balances (expectOr kind error >>= next) where
  nests {setup s} ht he := by
    refine bind_nests (expectOr_nests kind (by rintro rfl; cases hd) ht he fun hs =>
      Token.nest_opening (hs ▸ hd)) fun opening s' ho => ?_
    have he' := he.grow (kept_of_done ho).toGrown
    obtain ⟨hs, rfl, -⟩ := expectOr_done.1 ho
    exact (hn s.current).nests ht he' ((show s.current.kind = kind from hs) ▸ hd)

instance {next : Token → Parse α} [hn : ∀ opening, Encloses '(' opening (next opening)] :
    Balances (expect .openParen >>= next) := expectOr_balances rfl hn

instance {next : Token → Parse α} [hn : ∀ opening, Encloses '[' opening (next opening)] :
    Balances (expect .openBracket >>= next) := expectOr_balances rfl hn

instance {error : Parse Error} [Keeps error]
    [Balances (error >>= fun error => refuse error : Parse Token)] {next : Token → Parse α}
    [hn : ∀ opening, Encloses '\x7b' opening (next opening)] :
    Balances (expectOr .openCurly error >>= next) := expectOr_balances rfl hn

instance {next : Token → Parse α} [hn : ∀ opening, Encloses '\x7b' opening (next opening)] :
    Balances (expect .openCurly >>= next) := expectOr_balances rfl hn

/-- Where a parenthesis is closed early, nothing of its construct is left to fail. -/
instance {opening : Token} {step other : Parse α} [hs : Balances step]
    [ho : Encloses '(' opening other] :
    Encloses '(' opening (eat .closeParen >>= fun b => if b then step else other) where
  nests {setup s} ht he hd := by
    have hb : eat .closeParen setup s = .done (s.kind == .closeParen) (s.skip .closeParen) :=
      eat_done.2 ⟨rfl, rfl⟩
    change (Parse.bind (eat .closeParen) _ setup s).Nests _ id s
    simp only [Parse.bind, hb, State.skip, beq_iff_eq]
    split
    · rename_i hk
      have ht' : s.hasTokens := State.hasTokens_of_kind hk (by decide)
      have hc : s.current.kind.isClosing := by
        rw [show s.current.kind = .closeParen from hk]
        rfl
      refine (hs.nests ht (he.advance ht').2).from fun opened => ?_
      rw [s.openAtEnd_advance he ht', Token.nest_closing hc]
      rfl
    · exact ho.nests ht he hd

end

instance (start : Nat) (shape : Shape) : Balances (pushFrom start shape) := by
  unfold pushFrom; infer_instance

instance (id : NodeId) : Balances (spanOf id) := by unfold spanOf; infer_instance

/-! ## Names and lists -/

instance : Balances name where
  nests {setup s} ht he := by
    refine bind_nests (balances (look _) ht he) fun token s ho => ?_
    obtain ⟨rfl, rfl⟩ := look_done.1 ho
    split
    · rename_i hn
      simp only [Token.isName, Bool.or_eq_true, beq_iff_eq] at hn
      rcases hn with hk | hk
      · exact advance_bind_nests ht he hk
      · exact advance_bind_nests ht he hk
    · exact balances (misplaced .identifier >>= fun error => refuse error : Parse Name) ht he

instance : Balances path := by unfold path; infer_instance

instance {error : Parse Error} [Balances (error >>= fun error => refuse error : Parse Token)] :
    Closes (expectOr .closeCurly error) := expectOr_closes rfl

instance : Closes (expect .closeCurly) := expectOr_closes rfl

instance : Closes (expect .closeParen) := expectOr_closes rfl

theorem delimited_closes {close : Token.Kind} (hk : close.isClosing) {element : Parse NodeId}
    [Keeps element] [Balances element] : Closes (delimited close element) := by
  have : Closes (expectOr close (unexpected [.token .comma, .token close])) := expectOr_closes hk
  unfold delimited
  infer_instance

instance {element : Parse NodeId} [Keeps element] [Balances element] :
    Closes (delimited .closeParen element) := delimited_closes rfl

instance {element : Parse NodeId} [Keeps element] [Balances element] :
    Closes (delimited .closeBracket element) := delimited_closes rfl

instance {item : Parse NodeId} [Keeps item] [Balances item] : Balances (bracedItems item) := by
  unfold bracedItems; infer_instance

end Parse
end Smaug
