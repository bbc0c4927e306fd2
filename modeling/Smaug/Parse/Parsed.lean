import Smaug.Parse.Rules
import Smaug.Token.Tokens
import Smaug.Tree.Basic

/-! # Parsing a module

A module is an optional header and then statements up to the end of the input.  A statement that
fails is dropped whole, with every node built for it, and the parse goes on where a statement may
start again; in strict mode it ends there.  Exceeding a limit gives up the tree.
-/

namespace Smaug

/-- What a source is parsed to: a tree of what could be read, and every error. -/
structure Parsed where
  tree : Tree
  errors : List Error := []
deriving DecidableEq

namespace Parse

def Setup.standard (file : String) (options : Options) : Setup :=
  { file, maxDepth := options.maxDepth, table := .standard }

def header : Parse (Option NodeId) := do
  let start ← look (·.current.span.start)
  if ← eatWord "module" then
    let path ← path
    some <$> pushFrom start (.moduleHeader path)
  else return none

/-- Passes tokens up to a place where a statement may start: before `let`, `import` or the end of
the input, or after a closing brace. -/
def skipStatement : Nat → State → State
  | 0, s => s
  | tokens + 1, s =>
    match s.kind with
    | .eof | .letWord | .importWord => s
    | .closeCurly => s.advance
    | _ => skipStatement tokens s.advance

/-- Goes on after a failure since `mark`: drops the nodes built, and passes at least one token if
none was passed so far. -/
def recover (mark : Mark) (s : State) : State :=
  let s := s.discard mark
  if s.ahead.length = mark.ahead.length ∧ s.hasTokens then
    let next := s.advance
    if s.kind = .closeCurly then next else skipStatement next.remaining next
  else skipStatement s.remaining s

structure Progress where
  /-- The state to take the tree from, unless a limit was exceeded. -/
  state : Option State
  statements : Array NodeId
  errors : Array Error

/-- Reads statements up to the end of the input, after those read so far. -/
def topLevel (setup : Setup) (strict : Bool) :
    Nat → State → Array NodeId → Array Error → Progress
  | 0, s, statements, errors => ⟨some s, statements, errors⟩
  | turns + 1, s, statements, errors =>
    if s.hasTokens then
      let mark := s.mark
      match (Rule.form .statement).parse setup s with
      | .done id s => topLevel setup strict turns s (statements.push id) errors
      | .stopped (.error error) s =>
        let errors := errors.push error
        if error.classify = .resource then ⟨none, statements, errors⟩
        else if strict then ⟨some (s.discard mark), statements, errors⟩
        else topLevel setup strict turns (recover mark s) statements errors
      | .stopped _ s => ⟨some (s.discard mark), statements, errors⟩
    else ⟨some s, statements, errors⟩

def moduleBody (setup : Setup) (strict : Bool) (s : State) (errors : Array Error) : Progress :=
  topLevel setup strict s.remaining s #[] errors

end Parse

namespace Parsed

open Parse

def ofProgress (file : String) (trivia : Array Trivia) (header : Option NodeId)
    (progress : Progress) : Parsed where
  tree :=
    match progress.state with
    | none => { file }
    | some s => { file, nodes := s.nodes, header, statements := progress.statements.toList, trivia }
  errors := progress.errors.toList

def ofTokens (tokens : Tokens) (file : String) (options : Options) : Parsed :=
  let setup := Setup.standard file options
  let s := State.start tokens.tokens
  let mark := s.mark
  let finish := ofProgress file tokens.trivia
  match Parse.header setup s with
  | .done header s => finish header (moduleBody setup options.isStrict s #[])
  | .stopped (.error error) s =>
    if options.isStrict then { tree := { file }, errors := [error] }
    else finish none (moduleBody setup false (recover mark s) #[error])
  | .stopped _ _ => { tree := { file } }

def ofSource (source file : String) (options : Options) : Parsed :=
  match Tokens.ofSource source file options with
  | .ok tokens => ofTokens tokens file options
  | .error errors => { tree := { file }, errors }

def isOk (parsed : Parsed) : Bool := parsed.errors.isEmpty

end Parsed

/-- The tree of a source without errors, or else its first error. -/
def Tree.ofSource (source file : String) : Except Error Tree :=
  let parsed := Parsed.ofSource source file { mode := .strict }
  match parsed.errors with
  | [] => .ok parsed.tree
  | error :: _ => .error error

def isValid (source : String) : Bool :=
  (Parsed.ofSource source "<validate>" { mode := .strict }).isOk

end Smaug
