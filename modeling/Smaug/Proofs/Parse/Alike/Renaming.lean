import Mathlib
import Smaug.Proofs.Parse.Alike.Module

/-! # Layout and renaming

Tokens may be moved about, identifiers renamed and literals changed, as long as no word that the
grammar asks for comes or goes and integers stay within their bound or beyond it.  The tree keeps
its shape then, and the errors keep their names and what was expected.
-/

namespace Smaug

/-- Of two tokens one may be written for the other. -/
structure Token.Renamed (t t' : Token) : Prop where
  kind : t.kind = t'.kind
  identifier : t.kind = .identifier →
    t.value = t'.value ∨ t.value ∉ contextualWords ∧ t'.value ∉ contextualWords
  integer : t.kind = .integer →
    ((Text.integer? t.value).isSome ↔ (Text.integer? t'.value).isSome)

theorem Token.isWord_of_not_mem {t : Token} {word : String} (hv : t.value ∉ contextualWords)
    (hw : word ∈ contextualWords) : t.isWord word = false := by
  have hne : t.value ≠ word := fun h => hv (h ▸ hw)
  simp [isWord, hne]

theorem Token.Renamed.alike {t t' : Token} (h : t.Renamed t') : t.Alike t' where
  kind := h.kind
  word := by
    intro word hw
    by_cases hk : t.kind = .identifier
    · rcases h.identifier hk with hv | ⟨hv, hv'⟩
      · rw [isWord, isWord, h.kind, hv]
      · rw [isWord_of_not_mem hv hw, isWord_of_not_mem hv' hw]
    · rw [isWord, isWord, ← h.kind, beq_eq_false_iff_ne.2 hk, Bool.false_and, Bool.false_and]
  integer := fun hk => Bool.eq_iff_iff.2 (h.integer hk)

theorem Cause.skeleton_name (cause : Cause) : cause.skeleton.name = cause.name := by
  cases cause with
  | unexpectedToken token note => cases note <;> rfl
  | _ => rfl

theorem Error.Alike.name {e e' : Error} (h : e.Alike e') : e.name = e'.name := by
  rw [Error.name, Error.name, ← Cause.skeleton_name, h.cause, Cause.skeleton_name]

/-- How a program parses depends on the kinds of its tokens and on the words that the grammar asks
for; neither layout nor the choice of names and literals changes it. -/
theorem Parsed.ofTokens_renamed {tokens tokens' : Tokens} (file file' : String)
    (options : Options) (h : List.Forall₂ Token.Renamed tokens.tokens tokens'.tokens) :
    let parsed := ofTokens tokens file options
    let parsed' := ofTokens tokens' file' options
    parsed.tree.nodes.size = parsed'.tree.nodes.size ∧
      (∀ id, (parsed.tree.get? id).map (·.shape.skeleton) =
        (parsed'.tree.get? id).map (·.shape.skeleton)) ∧
      parsed.tree.header = parsed'.tree.header ∧
      parsed.tree.statements = parsed'.tree.statements ∧
      List.Forall₂ (fun e e' => e.name = e'.name ∧ e.expected = e'.expected)
        parsed.errors parsed'.errors := by
  intro parsed parsed'
  obtain ⟨hn, hh, hs, he⟩ : parsed.Alike parsed' :=
    ofTokens_alike file file' options (h.imp fun _ _ => Token.Renamed.alike)
  refine ⟨hn.size_eq, fun id => ?_, hh, hs, he.imp fun _ _ h => ⟨h.name, h.expected⟩⟩
  have hid := congrArg (fun skeletons => skeletons[id]?) hn
  simpa only [Array.getElem?_map, Tree.get?] using hid

theorem Parsed.ofTokens_renamed_yield :
    let tokens : Tokens :=
      { tokens := [⟨.yieldWord, "yield", ⟨0, 5⟩⟩, ⟨.identifier, "a", ⟨6, 7⟩⟩,
          ⟨.openCurly, "\x7b", ⟨8, 9⟩⟩, ⟨.integer, "1", ⟨10, 11⟩⟩, .endAt ⟨11, 11⟩]
        trivia := #[] }
    let tokens' : Tokens :=
      { tokens := [⟨.yieldWord, "yield", ⟨4, 9⟩⟩, ⟨.identifier, "name", ⟨9, 13⟩⟩,
          ⟨.openCurly, "\x7b", ⟨13, 14⟩⟩, ⟨.integer, "2_000", ⟨20, 25⟩⟩, .endAt ⟨30, 30⟩]
        trivia := #[] }
    List.Forall₂ Token.Renamed tokens.tokens tokens'.tokens ∧
      (ofTokens tokens "a.sm" {}).tree.nodes.size = (ofTokens tokens' "b.sm" {}).tree.nodes.size ∧
      List.Forall₂ (fun e e' => e.name = e'.name ∧ e.expected = e'.expected)
        (ofTokens tokens "a.sm" {}).errors (ofTokens tokens' "b.sm" {}).errors := by
  intro tokens tokens'
  have h : List.Forall₂ Token.Renamed tokens.tokens tokens'.tokens := by
    refine .cons ?_ (.cons ?_ (.cons ?_ (.cons ?_ (.cons ?_ .nil)))) <;>
      constructor <;> simp [Token.endAt, contextualWords]
    decide
  obtain ⟨hn, -, -, -, he⟩ := ofTokens_renamed "a.sm" "b.sm" {} h
  exact ⟨h, hn, he⟩

end Smaug
