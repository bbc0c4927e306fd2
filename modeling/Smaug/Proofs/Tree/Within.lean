import Mathlib
import Smaug.Proofs.Parse.Lossless
import Smaug.Proofs.Token.Boundary
import Smaug.Tree.Trivia

/-! # The trivia inside a span are found exactly

Halving finds where the items with a property end if these come before all others.  The trivia of a
source are in order, apart from each other and not empty.  So those that start before an offset come
first, as do those that end within one, and what is between the two ends is what lies in the span.
-/

namespace Smaug

/-! ## The trivia of a tree -/

/-- Pieces of trivia are in order, apart from each other and not empty. -/
structure Spread (trivia : List Trivia) : Prop where
  solid : ∀ t ∈ trivia, t.span.start < t.span.stop
  apart : trivia.Pairwise fun a b => a.span.stop ≤ b.span.start

namespace Spread

variable {trivia : List Trivia}

theorem starts (h : Spread trivia) (offset : Nat) :
    ComeFirst (fun t => decide (t.span.start < offset)) trivia := by
  refine h.apart.imp_of_mem fun ha _ hab hb => ?_
  have := h.solid _ ha
  simp only [decide_eq_true_eq] at hb ⊢
  omega

theorem stops (h : Spread trivia) (offset : Nat) :
    ComeFirst (fun t => decide (t.span.stop ≤ offset)) trivia := by
  refine h.apart.imp_of_mem fun _ hb hab hs => ?_
  have := h.solid _ hb
  simp only [decide_eq_true_eq] at hs ⊢
  omega

end Spread

/-- Where trivia are spread out, those found inside a span are those that lie in it. -/
theorem Tree.triviaIn_eq_filter {tree : Tree} (h : Spread tree.trivia.toList) (span : Span) :
    tree.triviaIn span =
      tree.trivia.toList.filter fun t => span.start ≤ t.span.start && t.span.stop ≤ span.stop := by
  let early (t : Trivia) : Bool := t.span.start < span.start
  let inTime (t : Trivia) : Bool := t.span.stop ≤ span.stop
  have hearly : ComeFirst early tree.trivia.toList := h.starts span.start
  have hinTime : ComeFirst inTime tree.trivia.toList := h.stops span.stop
  have hlies : (fun t : Trivia => decide (span.start ≤ t.span.start) && t.span.stop ≤ span.stop) =
      fun t => !early t && inTime t := by
    funext t
    simp only [early, inTime, ← decide_not, Nat.not_lt]
  calc tree.triviaIn span
    _ = (tree.trivia.toList.take (tree.trivia.toList.countP inTime)).drop
          (tree.trivia.toList.countP early) := by
      rw [Tree.triviaIn, partitionPoint_eq_countP hearly, partitionPoint_eq_countP hinTime,
        Array.toList_extract, List.extract_eq_take_drop, List.drop_take]
    _ = (tree.trivia.toList.filter inTime).filter fun t => !early t := by
      rw [hinTime.filter_eq_take, hearly.filter_not_take]
    _ = tree.trivia.toList.filter fun t => span.start ≤ t.span.start && t.span.stop ≤ span.stop := by
      rw [List.filter_filter, hlies]

/-- The trivia of a source are in order, apart from each other and not empty. -/
theorem Tokens.ofSource_spread {source file : String} {options : Options} {tokens : Tokens}
    (h : ofSource source file options = .ok tokens) : Spread tokens.trivia.toList := by
  have hregions := (regions_tile file 0 source.toList).le.2
  have hfill := regions_fill file 0 source.toList
  have hspan {item : Span × Passed} {t : Trivia} (ht : item.2.trivia? = some t) :
      item.2.span = t.span := by
    obtain ⟨region, kept | reading⟩ := item
    · rw [Option.some.inj ht, Passed.span]
    · cases ht
  rw [(ofSource_items h).2]
  constructor
  · intro t ht
    obtain ⟨item, hi, ht⟩ := List.mem_filterMap.1 ht
    have hlt := (hfill item hi).within (hregions item.1 (List.mem_map_of_mem hi)).2.1
    rw [hspan ht] at hlt
    exact hlt.2.1
  · refine List.pairwise_filterMap.2 ((regions_pairwise file 0 source.toList).imp ?_)
    intro a b hab t ht u hu
    rwa [hspan ht, hspan hu] at hab

/-- The tree of a parse keeps the trivia of its tokens, or none. -/
theorem Parsed.ofTokens_trivia (tokens : Tokens) (file : String) (options : Options) :
    let tree := (ofTokens tokens file options).tree
    tree.trivia = tokens.trivia ∨ tree.trivia = #[] := by
  have hprogress (header : Option NodeId) (progress : Parse.Progress) :
      let tree := (ofProgress file tokens.trivia header progress).tree
      tree.trivia = tokens.trivia ∨ tree.trivia = #[] := by
    unfold ofProgress
    cases progress.state with
    | none => exact .inr rfl
    | some s => exact .inl rfl
  unfold ofTokens
  dsimp only
  split
  · exact hprogress _ _
  · split
    · exact .inr rfl
    · exact hprogress _ _
  · exact .inr rfl

/-- The trivia found inside a span are exactly those of the tree that lie in it, in order, for any
span at all. -/
theorem Parsed.ofSource_triviaIn {source file : String} {options : Options} {tokens : Tokens}
    (h : Tokens.ofSource source file options = .ok tokens) (span : Span) :
    let tree := (Parsed.ofSource source file options).tree
    Spread tokens.trivia.toList ∧ (tree.trivia = tokens.trivia ∨ tree.trivia = #[]) ∧
      tree.triviaIn span = tree.trivia.toList.filter fun t =>
        span.start ≤ t.span.start && t.span.stop ≤ span.stop := by
  intro tree
  have hspread : Spread tokens.trivia.toList := Tokens.ofSource_spread h
  have htree : tree.trivia = tokens.trivia ∨ tree.trivia = #[] := by
    rw [show tree = (ofTokens tokens file options).tree by rw [← ofSource_eq_ofTokens h]]
    exact ofTokens_trivia tokens file options
  refine ⟨hspread, htree, Tree.triviaIn_eq_filter ?_ span⟩
  rcases htree with ht | ht
  · rwa [ht]
  · rw [ht]
    exact ⟨by simp, .nil⟩

theorem Parsed.ofSource_triviaIn_call :
    let tokens : Tokens :=
      { tokens :=
          [⟨.doWord, "do", ⟨0, 2⟩⟩, ⟨.identifier, "f", ⟨4, 5⟩⟩, ⟨.openParen, "(", ⟨5, 6⟩⟩,
            ⟨.closeParen, ")", ⟨7, 8⟩⟩, .endAt (.emptyAt 13)]
        trivia := #[⟨.whitespace, ⟨2, 4⟩⟩, ⟨.whitespace, ⟨6, 7⟩⟩, ⟨.whitespace, ⟨8, 9⟩⟩,
          ⟨.lineComment, ⟨9, 13⟩⟩] }
    let tree := (Parsed.ofSource "do  f( ) // a" "call.sm" {}).tree
    Tokens.ofSource "do  f( ) // a" "call.sm" {} = .ok tokens ∧ Spread tokens.trivia.toList ∧
      (tree.trivia = tokens.trivia ∨ tree.trivia = #[]) ∧
      tree.triviaIn ⟨3, 12⟩ =
        tree.trivia.toList.filter fun t => 3 ≤ t.span.start && t.span.stop ≤ 12 := by
  intro tokens tree
  have ht : Tokens.ofSource "do  f( ) // a" "call.sm" {} = .ok tokens := by decide +kernel
  exact ⟨ht, Parsed.ofSource_triviaIn ht ⟨3, 12⟩⟩

end Smaug
