import Mathlib
import Smaug.Token.Tokens

/-! # The name of a file

Reading a source uses the name of its file for nothing but the errors, which carry it.  Under
another name a source has the same tokens or the same errors, these with the other name.
-/

namespace Smaug

def Error.inFile (file : String) (error : Error) : Error := { error with file := some file }

def Reading.inFile (file : String) : Reading → Reading
  | error e => error (e.inFile file)
  | reading => reading

namespace Reader

def inFile (file : String) (reader : Reader) : Reader := { reader with file }

theorem next_nil {reader : Reader} (ha : reader.ahead = []) :
    reader.next =
      (.token (.endAt (.wrap reader.offset reader.offset)), { reader with finished := true }) := by
  obtain ⟨_, ahead, _, _, _, _⟩ := reader
  subst ha
  rw [next]

theorem next_misplaced {reader : Reader} {c : Char} {cs : List Char} (ha : reader.ahead = c :: cs)
    (hp : ¬reader.isPlaced) : reader.next = (.misplaced, reader) := by
  obtain ⟨_, ahead, _, _, _, _⟩ := reader
  subst ha
  rw [next]
  exact if_neg hp

/-- Reading at a character, by what starts there. -/
theorem next_cons {reader : Reader} {c : Char} {cs : List Char} (ha : reader.ahead = c :: cs)
    (hp : reader.isPlaced) :
    reader.next =
      let after := reader.pass (Lexeme.first c cs).length
      let span : Span := .wrap reader.offset after.offset
      match (Lexeme.first c cs).sort with
      | .trivia kind => next { after with trivia := reader.trivia.push ⟨kind, span⟩ }
      | .token kind value => (.token ⟨kind, value, span⟩, after)
      | .malformed cause => (.error { cause, span, file := some reader.file }, after)
      | .badEscape escape before =>
        let start := reader.offset + before
        (.error {
          cause := .invalidEscape escape
          span := .wrap start (start + 1 + escape.utf8Size)
          file := some reader.file }, after) := by
  obtain ⟨_, ahead, _, _, _, _⟩ := reader
  subst ha
  rw [next]
  exact if_pos hp

theorem next_inFile (file : String) (reader : Reader) :
    (reader.inFile file).next = (reader.next.1.inFile file, reader.next.2.inFile file) := by
  fun_induction next reader with
  | case1 reader ha =>
    rw [next_nil (show (reader.inFile file).ahead = [] from ha)]
    rfl
  | case2 reader c cs ha hp lexeme passed span kind hk ih =>
    have hk : (Lexeme.first c cs).sort = _ := hk
    rw [← ih, next_cons (show (reader.inFile file).ahead = c :: cs from ha) hp, hk]
    rfl
  | case3 reader c cs ha hp lexeme passed span kind value hk
  | case4 reader c cs ha hp lexeme passed span cause hk
  | case5 reader c cs ha hp lexeme passed escape before hk start =>
    have hk : (Lexeme.first c cs).sort = _ := hk
    rw [next_cons (show (reader.inFile file).ahead = c :: cs from ha) hp, hk]
    rfl
  | case6 reader c cs ha hp =>
    rw [next_misplaced (show (reader.inFile file).ahead = c :: cs from ha) hp]
    rfl

/-- Draining a reader, by what it yields next. -/
theorem drainOnto_next {readings : Array Reading} {reader after : Reader} {reading : Reading}
    (hf : ¬reader.finished) (hn : reader.next = (reading, after)) :
    reader.drainOnto readings =
      if reading = .misplaced ∨ after.finished then (readings.push reading, after)
      else after.drainOnto (readings.push reading) := by
  rw [drainOnto, if_neg hf]
  split
  rename_i h
  rw [hn] at h
  obtain ⟨rfl, rfl⟩ := Prod.mk.inj h
  rfl

theorem drainOnto_inFile (file : String) (readings : Array Reading) (reader : Reader) :
    (reader.inFile file).drainOnto (readings.map (Reading.inFile file)) =
      ((reader.drainOnto readings).1.map (Reading.inFile file),
        (reader.drainOnto readings).2.inFile file) := by
  have hmisplaced (reading : Reading) :
      reading.inFile file = .misplaced ↔ reading = .misplaced := by
    cases reading <;> simp [Reading.inFile]
  fun_induction drainOnto readings reader with
  | case1 readings reader hf =>
    rw [drainOnto, if_pos (show (reader.inFile file).finished = true from hf)]
  | case2 readings reader hf reading after hn readings' hd =>
    have hf' : ¬(reader.inFile file).finished := hf
    have hn' := next_inFile file reader
    rw [hn] at hn'
    have hd' : reading.inFile file = .misplaced ∨ (after.inFile file).finished = true := by
      rwa [hmisplaced]
    rw [drainOnto_next hf' hn', if_pos hd', Array.map_push]
  | case3 readings reader hf reading after hn readings' hd ih =>
    have hf' : ¬(reader.inFile file).finished := hf
    have hn' := next_inFile file reader
    rw [hn] at hn'
    have hd' : ¬(reading.inFile file = .misplaced ∨ (after.inFile file).finished = true) := by
      rwa [hmisplaced]
    rw [drainOnto_next hf' hn', if_neg hd', ← ih, Array.map_push]

end Reader

namespace Tokens

theorem collect_inFile (file file' : String) (options : Options) (tokens : Array Token)
    (errors : Array Error) (readings : List Reading) :
    collect options file' tokens (errors.map (Error.inFile file'))
        (readings.map (Reading.inFile file')) =
      (collect options file tokens errors readings).mapError (List.map (Error.inFile file')) := by
  have hfinish (tokens : Array Token) (errors : Array Error) :
      collect.finish (errors.map (Error.inFile file')) tokens =
        (collect.finish errors tokens).mapError (List.map (Error.inFile file')) := by
    unfold collect.finish
    by_cases he : errors.isEmpty
    · simp_all [Except.mapError]
    · simp_all [Except.mapError]
  induction readings generalizing tokens errors with
  | nil => exact hfinish tokens errors
  | cons reading readings ih =>
    cases reading with
    | token token =>
      simp only [List.map_cons, Reading.inFile, collect]
      split
      · exact hfinish _ errors
      · split
        · split
          · simp [Except.mapError, Error.inFile, tooManyTokens]
          · exact ih _ errors
        · exact ih _ errors
    | error error =>
      simp only [List.map_cons, Reading.inFile, collect]
      split
      · simp [Except.mapError]
      · rw [← ih, Array.map_push]
    | misplaced => exact hfinish tokens errors

/-- A source has the same tokens whatever its file is called, or the same errors but for the file
they name. -/
theorem ofSource_inFile (source file file' : String) (options : Options) :
    ofSource source file' options =
      (ofSource source file options).mapError (List.map (Error.inFile file')) := by
  have hsource : (Reader.ofSource source file).inFile file' = .ofSource source file' := rfl
  have hdrain := Reader.drainOnto_inFile file' #[] (.ofSource source file)
  rw [hsource, Array.map_empty] at hdrain
  unfold ofSource
  split
  · rfl
  · have hcollect := collect_inFile file file' options #[] #[]
      ((Reader.ofSource source file).drainOnto #[]).1.toList
    rw [Array.map_empty] at hcollect
    simp only [Reader.drain, hdrain, Array.toList_map, hcollect]
    cases collect options file #[] #[] _ <;> rfl

end Tokens
end Smaug
