import Mathlib
import Smaug.Proofs.Token.Cut

/-! # The regions of a source

A reader moves through a source by regions, one behind the other from the first byte to the last.
It passes each of them at one go, for a piece of trivia that it keeps, or for a token or an error
that it yields.
-/

namespace Smaug

inductive Passed where
  | trivia (trivia : Trivia)
  | reading (reading : Reading)

namespace Passed

def trivia? : Passed → Option Trivia
  | trivia kept => some kept
  | reading _ => none

def reading? : Passed → Option Reading
  | trivia _ => none
  | reading yielded => some yielded

/-- What is passed lies where it says.  Only the error of a bad escape speaks of less than the
region, which is the whole literal. -/
def Fills (region : Span) : Passed → Prop
  | trivia kept => kept.span = region
  | reading (.token token) => token.span = region ∧ token.kind ≠ .eof
  | reading (.error error) =>
    region.contains error.span ∧ error.span.start < error.span.stop ∧
      (error.span = region ∨ ∃ escape, error.cause = .invalidEscape escape)
  | reading .misplaced => False

end Passed

/-- Spans that are not empty and lie one behind the other, from an offset up to another one. -/
inductive Tiles : Nat → Nat → List Span → Prop
  | nil : Tiles stop stop []
  | cons (h : start < middle) (ht : Tiles middle stop spans) :
      Tiles start stop (⟨start, middle⟩ :: spans)

namespace Reader

/-- How a reader gets from one state to another: by regions from where it stands to where it then
stands, passed for the trivia kept and the readings yielded on the way. -/
inductive Run : Reader → List (Span × Passed) → Reader → Prop
  | refl : Run reader [] reader
  | trivia {reader after last : Reader} {kept : Trivia} {items : List (Span × Passed)}
      (hk : after.trivia = reader.trivia.push kept) (hn : reader.next = after.next)
      (hp : reader.pull = after.pull) (h : Run after items last) :
      Run reader ((⟨reader.offset, after.offset⟩, .trivia kept) :: items) last
  | reading {reader after last : Reader} {yielded : Reading} {items : List (Span × Passed)}
      (hk : after.trivia = reader.trivia) (hn : reader.next = (yielded, after))
      (hp : reader.pull = (some yielded, after)) (hf : after.finished = false)
      (h : Run after items last) :
      Run reader ((⟨reader.offset, after.offset⟩, .reading yielded) :: items) last

end Reader

/-! ## The regions of a text -/

namespace Lexeme

def Sort.passed (file : String) (start stop : Nat) : Lexeme.Sort → Passed
  | trivia kind => .trivia ⟨kind, ⟨start, stop⟩⟩
  | token kind value => .reading (.token ⟨kind, value, ⟨start, stop⟩⟩)
  | malformed cause => .reading (.error { cause, span := ⟨start, stop⟩, file := some file })
  | badEscape escape before =>
    .reading (.error {
      cause := .invalidEscape escape
      span := ⟨start + before, start + before + 1 + escape.utf8Size⟩
      file := some file })

/-- A bad escape lies within the body that it is found in. -/
theorem le_of_decodeBody {before offset : Nat} {decoded cs : List Char} {escape : Char}
    (h : decodeBody before decoded cs = .error (escape, offset)) :
    offset + 1 + escape.utf8Size ≤ before + Text.size cs := by
  have hslash : '\\'.utf8Size = 1 := rfl
  fun_induction decodeBody before decoded cs with
  | case1 => cases h
  | case2 before decoded cs ih | case3 before decoded cs ih | case4 before decoded cs ih =>
    have := ih h
    have hquote : '"'.utf8Size = 1 := rfl
    have hn : 'n'.utf8Size = 1 := rfl
    simp only [Text.size_cons]
    omega
  | case5 before decoded c cs =>
    cases h
    simp only [Text.size_cons]
    omega
  | case6 before decoded c cs _ _ _ _ ih =>
    have := ih h
    simp only [Text.size_cons]
    omega

theorem bodyLength?_le {count n : Nat} {cs : List Char} (h : bodyLength? count cs = some n) :
    n < count + cs.length := by
  fun_induction bodyLength? count cs with
  | case1 =>
    cases h
    simp
  | case2 count c cs ih | case3 count c cs _ _ ih =>
    have := ih h
    simp only [List.length_cons]
    omega
  | case4 => cases h

/-- Only a string literal that is closed has a bad escape. -/
theorem first_badEscape {c : Char} {cs : List Char} {escape : Char} {before : Nat}
    (h : (first c cs).sort = .badEscape escape before) :
    c = '"' ∧ ∃ n, (first c cs).length = n + 2 ∧ n < cs.length ∧
      decodeBody 1 [] (cs.take n) = .error (escape, before) := by
  unfold first at h ⊢
  split at h
  · cases h
  rename_i hblank
  split at h
  · cases h
  rename_i hline
  split at h
  · unfold blockComment at h
    split at h <;> cases h
  rename_i hblock
  split at h
  · rename_i hquote
    rw [if_neg hblank, if_neg hline, if_neg hblock, if_pos hquote]
    unfold stringLiteral at h ⊢
    cases hn : bodyLength? 0 cs with
    | none => simp [hn] at h
    | some n =>
      have hlt := bodyLength?_le hn
      simp only [hn] at h ⊢
      cases hd : decodeBody 1 [] (cs.take n) with
      | ok value => simp [hd] at h
      | error found =>
        obtain ⟨escape', before'⟩ := found
        simp only [hd] at h ⊢
        cases h
        exact ⟨hquote, n, rfl, by omega, hd⟩
  split at h
  · cases h
  split at h
  · cases h
  · unfold mark at h
    split at h <;> cases h

/-- A bad escape lies within its literal. -/
theorem badEscape_le {c : Char} {cs : List Char} {escape : Char} {before : Nat}
    (h : (first c cs).sort = .badEscape escape before) :
    before + 1 + escape.utf8Size ≤ Text.size ((c :: cs).take (first c cs).length) := by
  obtain ⟨-, n, hl, hn, hd⟩ := first_badEscape h
  have hle := le_of_decodeBody hd
  have hc := c.utf8Size_pos
  rw [hl, List.take_succ_cons, List.take_add, Text.size_cons, Text.size_append]
  omega

end Lexeme

def regions (file : String) (start : Nat) : List Char → List (Span × Passed)
  | [] => []
  | c :: cs =>
    let lexeme := Lexeme.first c cs
    let stop := start + Text.size ((c :: cs).take lexeme.length)
    (⟨start, stop⟩, lexeme.sort.passed file start stop) ::
      regions file stop ((c :: cs).drop lexeme.length)
termination_by cs => cs.length
decreasing_by
  have := Lexeme.first_length_pos c cs
  simp only [List.length_drop, List.length_cons]
  omega

theorem Lexeme.size_pos (c : Char) (cs : List Char) :
    0 < Text.size ((c :: cs).take (first c cs).length) :=
  Text.size_pos (by simp [Nat.ne_of_gt (first_length_pos c cs)])

theorem Lexeme.passed_fills (file : String) (start : Nat) (c : Char) (cs : List Char) :
    let stop := start + Text.size ((c :: cs).take (first c cs).length)
    ((first c cs).sort.passed file start stop).Fills ⟨start, stop⟩ := by
  intro stop
  have hpos := size_pos c cs
  cases hs : (first c cs).sort with
  | trivia kind => exact rfl
  | token kind value => exact ⟨rfl, first_ne_eof hs⟩
  | malformed cause =>
    exact ⟨by simp [Span.contains], Nat.lt_add_of_pos_right hpos, .inl rfl⟩
  | badEscape escape before =>
    have hle := badEscape_le hs
    refine ⟨?_, by simp only; omega, .inr ⟨escape, rfl⟩⟩
    simp only [Span.contains, Bool.and_eq_true, decide_eq_true_eq, stop]
    omega

section
variable (file : String)

theorem regions_fill (start : Nat) (cs : List Char) :
    ∀ item ∈ regions file start cs, item.2.Fills item.1 := by
  fun_induction regions file start cs with
  | case1 => simp
  | case2 start c cs lexeme stop ih =>
    exact List.forall_mem_cons.2 ⟨Lexeme.passed_fills file start c cs, ih⟩

theorem regions_tile (start : Nat) (cs : List Char) :
    Tiles start (start + Text.size cs) ((regions file start cs).map Prod.fst) := by
  fun_induction regions file start cs with
  | case1 => exact .nil
  | case2 start c cs lexeme stop ih =>
    rw [show stop + Text.size ((c :: cs).drop lexeme.length) = start + Text.size (c :: cs) from
      Text.size_take_drop start lexeme.length (c :: cs)] at ih
    exact .cons (Nat.lt_add_of_pos_right (Lexeme.size_pos c cs)) ih

/-- Regions start and end between two characters. -/
theorem regions_text {source : String} (front cs : List Char) (h : source.toList = front ++ cs) :
    ∀ item ∈ regions file (Text.size front) cs, ∃ text, item.1.text? source = some text := by
  generalize hstart : Text.size front = start
  fun_induction regions file start cs generalizing front with
  | case1 => simp
  | case2 start c cs lexeme stop =>
    rename_i ih
    subst hstart
    have hsplit : source.toList =
        front ++ ((c :: cs).take lexeme.length ++ (c :: cs).drop lexeme.length) := by
      rw [h, List.take_append_drop]
    refine List.forall_mem_cons.2 ⟨⟨_, Span.text?_append hsplit⟩, ?_⟩
    exact ih _ (hsplit.trans (List.append_assoc _ _ _).symm) (Text.size_append _ _)

end

namespace Reader

section
variable {reader : Reader} {size : Nat}

theorem pull_of_next {after : Reader} {reading : Reading} (hf : reader.finished = false)
    (hn : reader.next = (reading, after)) : reader.pull = (some reading, after) := by
  simp [pull, hf, hn]

/-- A reader that is not at the end passes the lexeme at which it stands. -/
theorem run_cons (hs : size ≤ Span.maxOffset) (hw : reader.Within size)
    (hf : reader.finished = false) {c : Char} {cs : List Char} (ha : reader.ahead = c :: cs) :
    let lexeme := Lexeme.first c cs
    let stop := reader.offset + Text.size ((c :: cs).take lexeme.length)
    ∃ after : Reader, after.Within size ∧ after.finished = false ∧ after.file = reader.file ∧
      after.offset = stop ∧ after.ahead = (c :: cs).drop lexeme.length ∧
      ∀ {items last}, Run after items last →
        Run reader ((⟨reader.offset, stop⟩,
          lexeme.sort.passed reader.file reader.offset stop) :: items) last := by
  intro lexeme stop
  have hwp := hw.pass lexeme.length
  have hstop : (reader.pass lexeme.length).offset = stop := by simp only [pass, ha, stop]
  have hahead : (reader.pass lexeme.length).ahead = (c :: cs).drop lexeme.length := by
    simp only [pass, ha]
  have hle : stop ≤ Span.maxOffset := Nat.le_trans (hstop ▸ hwp.offset_le) hs
  have hnext := next_cons ha hw.placed
  have hspan : Span.wrap reader.offset stop = ⟨reader.offset, stop⟩ :=
    Span.wrap_of_le (Nat.le_add_right _ _) hle
  simp only [show Lexeme.first c cs = lexeme from rfl, hstop, hspan] at hnext
  have hyield {reading : Reading} {items : List (Span × Passed)} {last : Reader}
      (hn : reader.next = (reading, reader.pass lexeme.length))
      (h : Run (reader.pass lexeme.length) items last) :
      Run reader ((⟨reader.offset, stop⟩, .reading reading) :: items) last :=
    hstop ▸ .reading rfl hn (pull_of_next hf hn) hf h
  cases hsort : lexeme.sort with
  | trivia kind =>
    simp only [hsort] at hnext
    let after : Reader :=
      { reader.pass lexeme.length with trivia := reader.trivia.push ⟨kind, ⟨reader.offset, stop⟩⟩ }
    have hn : reader.next = after.next := by
      rw [hnext]
      simp only [after, ← hstop]
    have hp : reader.pull = after.pull := by
      rw [pull, pull, hn]
      simp [after, pass, hf]
    refine ⟨after, ⟨hwp.placed, hwp.total⟩, hf, rfl, hstop, hahead, fun {items last} h => ?_⟩
    have hrun : Run reader ((⟨reader.offset, after.offset⟩, .trivia _) :: items) last :=
      .trivia rfl hn hp h
    rwa [show after.offset = stop from hstop] at hrun
  | token kind value =>
    simp only [hsort] at hnext
    exact ⟨_, hwp, hf, rfl, hstop, hahead, hyield hnext⟩
  | malformed cause =>
    simp only [hsort] at hnext
    exact ⟨_, hwp, hf, rfl, hstop, hahead, hyield hnext⟩
  | badEscape escape before =>
    have hescape : before + 1 + escape.utf8Size ≤ Text.size ((c :: cs).take lexeme.length) :=
      Lexeme.badEscape_le hsort
    rw [hsort] at hnext
    simp only [Span.wrap_of_le (show reader.offset + before ≤ _ from by omega)
      (show reader.offset + before + 1 + escape.utf8Size ≤ Span.maxOffset by omega)] at hnext
    exact ⟨_, hwp, hf, rfl, hstop, hahead, hyield hnext⟩

/-- A reader runs through the regions of the text that it has ahead. -/
theorem run_regions (hs : size ≤ Span.maxOffset) (hw : reader.Within size)
    (hf : reader.finished = false) :
    ∃ last, Run reader (regions reader.file reader.offset reader.ahead) last ∧
      last.Within size ∧ last.finished = false ∧ last.ahead = [] := by
  generalize hfile : reader.file = file
  generalize hstart : reader.offset = start
  generalize hcs : reader.ahead = cs
  fun_induction regions file start cs generalizing reader with
  | case1 => exact ⟨reader, .refl, hw, hf, hcs⟩
  | case2 start c cs lexeme stop =>
    rename_i ih
    subst hfile hstart
    obtain ⟨after, hwa, hfa, hfile, hstop, hahead, hrun⟩ := run_cons hs hw hf hcs
    obtain ⟨last, h, hlast⟩ := ih hwa hfa hfile hstop hahead
    exact ⟨last, hrun h, hlast⟩

theorem drain_eq (reader : Reader) :
    reader.drain = ((reader.drainOnto #[]).1.toList, (reader.drainOnto #[]).2) := rfl

/-- Draining a reader is pulling it as long as it yields something. -/
theorem drainOnto_pull (readings : Array Reading) (reader : Reader) :
    reader.drainOnto readings =
      match reader.pull with
      | (none, after) => (readings, after)
      | (some reading, after) =>
        if reading = .misplaced ∨ after.finished then (readings.push reading, after)
        else after.drainOnto (readings.push reading) := by
  by_cases hf : reader.finished
  · rw [drainOnto, if_pos hf]
    simp [pull, hf]
  · cases hn : reader.next with
    | mk reading after => rw [drainOnto_next hf hn, pull_of_next (by simpa using hf) hn]

/-- What a run yields and keeps is what draining the reader yields and keeps. -/
theorem Run.drainOnto {reader last : Reader} {items : List (Span × Passed)}
    (h : Run reader items last) (hi : ∀ item ∈ items, item.2.Fills item.1)
    (readings : Array Reading) :
    reader.drainOnto readings =
        last.drainOnto (readings ++ (items.filterMap fun item => item.2.reading?).toArray) ∧
      last.trivia.toList =
        reader.trivia.toList ++ items.filterMap fun item => item.2.trivia? := by
  induction h generalizing readings with
  | refl => simp
  | @trivia reader after last kept items hk _ hp _ ih =>
    obtain ⟨hd, ht⟩ := ih (List.forall_mem_cons.1 hi).2 readings
    refine ⟨?_, by simp [ht, hk, Passed.trivia?]⟩
    rw [drainOnto_pull, hp, ← drainOnto_pull, hd]
    rfl
  | @reading reader after last yielded items hk _ hp hf _ ih =>
    obtain ⟨hfill, hi⟩ := List.forall_mem_cons.1 hi
    obtain ⟨hd, ht⟩ := ih hi (readings.push yielded)
    have hm : yielded ≠ .misplaced := by
      rintro rfl
      exact hfill
    refine ⟨?_, by simp [ht, hk, Passed.trivia?]⟩
    rw [drainOnto_pull, hp]
    simp [hm, hf, hd, Passed.reading?]

/-- The reader of a source runs through its regions, and then yields the end of the input. -/
theorem ofSource_run (source file : String) (h : source.utf8ByteSize ≤ Span.maxOffset) :
    let reader := ofSource source file
    let items := regions file 0 source.toList
    let stop : Reading := .token (.endAt (.emptyAt source.utf8ByteSize))
    ∃ before last, Run reader items before ∧ before.next = (stop, last) ∧
      before.pull = (some stop, last) ∧ last.pull = (none, last) ∧
      reader.drain = ((items.filterMap fun item => item.2.reading?) ++ [stop], last) ∧
      last.trivia.toList = items.filterMap fun item => item.2.trivia? := by
  intro reader items stop
  obtain ⟨before, hrun, hw, hf, ha⟩ : ∃ before, Run reader items before ∧
      before.Within source.utf8ByteSize ∧ before.finished = false ∧ before.ahead = [] :=
    run_regions h (ofSource_within source file) rfl
  have hoffset : before.offset = source.utf8ByteSize := by
    have htotal := hw.total
    rwa [ha, Text.size_nil, Nat.add_zero] at htotal
  have hn : before.next = (stop, { before with finished := true }) := by
    rw [next_nil ha, hoffset, Span.wrap_of_le (Nat.le_refl _) h]
    rfl
  obtain ⟨hd, ht⟩ := hrun.drainOnto (regions_fill file 0 source.toList) #[]
  refine ⟨before, _, hrun, hn, pull_of_next hf hn, rfl, ?_, ht⟩
  rw [drain_eq, hd, drainOnto_pull, pull_of_next hf hn]
  simp

/-- A reader passes every byte of a source once: it runs through regions one behind the other, from
the first byte to the last, and each lies between two characters.  The trivia and the tokens lie
where their regions do, and each error within its region.  Then comes the end of the input, once. -/
theorem ofSource_regions (source file : String) (h : source.utf8ByteSize ≤ Span.maxOffset) :
    let reader := ofSource source file
    let stop : Reading := .token (.endAt (.emptyAt source.utf8ByteSize))
    ∃ items before last, Run reader items before ∧
      Tiles 0 source.utf8ByteSize (items.map Prod.fst) ∧
      (∀ item ∈ items, item.2.Fills item.1 ∧ ∃ text, item.1.text? source = some text) ∧
      before.next = (stop, last) ∧ before.pull = (some stop, last) ∧ last.pull = (none, last) ∧
      reader.drain = ((items.filterMap fun item => item.2.reading?) ++ [stop], last) ∧
      last.trivia.toList = items.filterMap fun item => item.2.trivia? := by
  intro reader stop
  obtain ⟨before, last, hrun, hlast⟩ := ofSource_run source file h
  have htiles := regions_tile file 0 source.toList
  rw [Text.size_toList, Nat.zero_add] at htiles
  exact ⟨_, before, last, hrun, htiles,
    fun item hi => ⟨regions_fill file 0 _ item hi, regions_text file [] _ rfl item hi⟩, hlast⟩

theorem ofSource_regions_escape :
    let reader := ofSource "a \"\\q\" //" "escape.sm"
    "a \"\\q\" //".utf8ByteSize ≤ Span.maxOffset ∧
      ∃ items before last, Run reader items before ∧ Tiles 0 9 (items.map Prod.fst) ∧
        (∀ item ∈ items, item.2.Fills item.1) ∧
        reader.drain = ((items.filterMap fun item => item.2.reading?) ++
          [.token (.endAt (.emptyAt 9))], last) := by
  intro reader
  have hs : "a \"\\q\" //".utf8ByteSize ≤ Span.maxOffset := by decide
  obtain ⟨items, before, last, hrun, htiles, hfill, -, -, -, hdrain, -⟩ :=
    ofSource_regions "a \"\\q\" //" "escape.sm" hs
  exact ⟨hs, items, before, last, hrun, htiles, fun item hi => (hfill item hi).1, hdrain⟩

end

end Reader

end Smaug
