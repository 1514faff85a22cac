import LineShell.Script.Token

/-!
# Statements from tokens

A script is read one complete line at a time, so that what stands before a fault is carried out first,
and so that a script may be read in pieces. `nextStatement` gives the statement of the next complete
line: pipelines joined by `&&` and `||`, and those ended by `;` or `&`. Within `{ }`, `( )`, `if`,
`while`, `until`, `for` and `case` a statement may go over several lines. Reserved words count only
where a command may begin.
-/

namespace LineShell.Script

/-- Why a script cannot be read, and on which line. -/
structure Fault where
  line : Nat
  message : Bytes
  /-- More text might mend it. -/
  mendable : Bool

/-- Where a reader stands in a script. -/
structure Cursor where
  /-- Nothing comes after the text. -/
  final : Bool
  remaining : Remaining
  /-- The token read ahead, and what follows it. -/
  ahead : Option (Token × Remaining)

/-- A reader of statements. -/
abbrev Reader := StateT Cursor (Except Fault)

namespace Reader

/-! ## Tokens -/

/-- Gives up on a line. -/
def fail {α : Type} (r : Remaining) (message : Bytes) : Reader α :=
  throw ⟨r.line, spell "Syntax error: " ++ message, r.text.isEmpty⟩

/-- The next token, with what follows it. -/
def peekPlaced : Reader (Token × Remaining) := do
  let cursor ← get
  match cursor.ahead with
  | some ahead => return ahead
  | none =>
    match nextToken cursor.final (cursor.remaining.text.length + 1) cursor.remaining with
    | .ok ahead =>
      set { cursor with ahead := some ahead }
      return ahead
    | .error (.wrong message) => fail cursor.remaining (spell message)
    | .error (.unfinished line message) =>
      throw ⟨line, spell "Syntax error: " ++ spell message, true⟩

/-- The next token. -/
def peek : Reader Token := do
  return (← peekPlaced).1

/-- Passes the next token. -/
def skip : Reader Unit := do
  let (_, after) ← peekPlaced
  modify fun cursor => { cursor with remaining := after, ahead := none }

/-- The line on which the next token ends. -/
def line : Reader Nat := do
  return (← peekPlaced).2.line

/-- The word of a token if it is a single unquoted literal, which may be a reserved word. -/
def plain? : Token → Option Bytes
  | .word [.literal bytes false] => some bytes
  | _ => none

/-- The words that are not commands where a command may begin. -/
def reserved : List Bytes :=
  ["then", "else", "elif", "fi", "do", "done", "\x7d", "if", "while", "until", "for", "\x7b", "!",
    "in", "case", "esac"].map spell

/-- Something in double quotes. -/
def inQuotes (bytes : Bytes) : Bytes := spell "\"" ++ bytes ++ spell "\""

/-- How a token is named in a fault. -/
def name (token : Token) : Bytes :=
  match token with
  | .word _ =>
    match plain? token with
    | some bytes => if reserved.contains bytes then inQuotes bytes else spell "word"
    | none => spell "word"
  | .operator spelling => inQuotes spelling
  | .redirection .. | .text .. => spell "redirection"
  | .lineEnd => spell "newline"
  | .finish => spell "end of file"

/-- Gives up at the next token; `expected` is what should have stood there. -/
def unexpected {α : Type} (expected : Option Bytes) : Reader α := do
  let (token, after) ← peekPlaced
  let wanted := expected.elim [] fun e => spell " (expecting " ++ e ++ spell ")"
  fail after (name token ++ spell " unexpected" ++ wanted)

/-- The next token is this operator. -/
def atOperator (spelling : String) : Reader Bool := do
  match ← peek with
  | .operator other => return other = spell spelling
  | _ => return false

/-- The next token is this reserved word. -/
def atReserved (word : String) : Reader Bool := do
  return plain? (← peek) = some (spell word)

/-- Passes a reserved word. -/
def expect (word : String) : Reader Unit := do
  if ← atReserved word then skip else unexpected (some (inQuotes (spell word)))

/-- Passes an operator. -/
def expectOperator (spelling : String) : Reader Unit := do
  if ← atOperator spelling then skip else unexpected (some (inQuotes (spell spelling)))

/-- Passes line ends, at most so many. -/
def skipLines : Nat → Reader Unit
  | 0 => return ()
  | more + 1 => do
    if (← peek) matches .lineEnd then
      skip
      skipLines more

/-- The number of bytes that are left, which bounds the number of tokens. -/
def bound : Reader Nat := do
  return (← get).remaining.text.length + 1

/-- Passes line ends. -/
def skipLineEnds : Reader Unit := do
  skipLines (← bound)

/-! ## Simple commands -/

/-- Reads the rest of a redirection after its operator. -/
def redirection (descriptor : Option Nat) (spelling : Bytes) : Reader Redirection := do
  match ← peek with
  | .word path =>
    skip
    let reading := spelling.head? = some (code '<')
    let target :=
      if spelling = spell "<" then Target.input path
      else if spelling = spell "<>" then .update path
      else if spelling = spell ">>" then .append path
      else if spelling = spell ">&" || spelling = spell "<&" then .copy path
      else .output path
    return ⟨descriptor.getD (if reading then 0 else 1), target⟩
  | _ => unexpected none

/-- Reads a redirection if one comes next. -/
def redirection? : Reader (Option Redirection) := do
  match ← peek with
  | .redirection descriptor spelling =>
    skip
    return some (← redirection descriptor spelling)
  | .text descriptor content =>
    skip
    return some ⟨descriptor.getD 0, .text content⟩
  | _ => return none

/-- Reads redirections as long as there are any. -/
def redirectionsOf : Nat → Reader (List Redirection)
  | 0 => return []
  | fuel + 1 => do
    match ← redirection? with
    | some first => return first :: (← redirectionsOf fuel)
    | none => return []

/-- The variable and the value of a word that sets a variable. -/
def setting? : Word → Option (Bytes × Word)
  | .literal bytes false :: rest =>
    let name := bytes.takeWhile continuesName
    match bytes.drop name.length with
    | b :: value =>
      if b == code '=' && isName name then
        some (name, if value.isEmpty then rest else .literal value false :: rest)
      else none
    | [] => none
  | _ => none

/-- Reads the rest of a simple command, of which the parts read so far are given. -/
def simpleRest : Nat → Nat → List (Bytes × Word) → List Word → List Redirection → Reader Statement
  | 0, line, settings, words, redirections => return .simple line settings words redirections
  | fuel + 1, line, settings, words, redirections => do
    match ← redirection? with
    | some next => simpleRest fuel line settings words (redirections ++ [next])
    | none =>
      match ← peek with
      | .word parts =>
        skip
        match words, setting? parts with
        | [], some setting => simpleRest fuel line (settings ++ [setting]) [] redirections
        | _, _ => simpleRest fuel line settings (words ++ [parts]) redirections
      | _ => return .simple line settings words redirections

/-- Reads words up to the first token that is none. -/
def wordsOf : Nat → Reader (List Word)
  | 0 => return []
  | fuel + 1 => do
    match ← peek with
    | .word parts =>
      skip
      return parts :: (← wordsOf fuel)
    | _ => return []

/-- Reads the patterns of an arm, between bars. What is no word is an empty pattern. -/
def patternsOf : Nat → Reader (List Word)
  | 0 => return []
  | fuel + 1 => do
    let parts := match ← peek with
      | .word parts => parts
      | _ => []
    skip
    if ← atOperator "|" then
      skip
      return parts :: (← patternsOf fuel)
    else return [parts]

/-- Builtins that no function may be named like. -/
def guarded : List Bytes :=
  [".", ":", "break", "continue", "eval", "exec", "exit", "export", "local", "readonly", "return",
    "set", "shift", "times", "trap", "unset"].map spell

/-! ## Statements -/

/-- The reserved words that end a block. -/
def closing : List Bytes :=
  ["then", "else", "elif", "fi", "do", "done", "\x7d", "esac"].map spell

/-- The next token ends a block. -/
def endsBlock : Reader Bool := do
  match ← peek with
  | .finish => return true
  | .operator spelling => return spelling = spell ")" || spelling = spell ";;"
  | token => return (plain? token).any closing.contains

/-- A statement that is not waited for. -/
def inBackground : Statement → Statement
  | .group line _ body redirections => .background (.group line false body redirections)
  | statement => .background statement

/-- A statement after another one, if there is another one. -/
def after (first : Option Statement) (second : Statement) : Statement :=
  first.elim second fun first => .sequence first second

mutual

/-- Reads a command. -/
def command : Nat → Reader Statement
  | 0 => unexpected none
  | fuel + 1 => do
    let start ← line
    let grouped (apart : Bool) (body : Statement) : Reader Statement := do
      return .group start apart body (← redirectionsOf (← bound))
    if ← atReserved "if" then
      skip
      grouped false (← branches fuel)
    else if ← atReserved "while" then
      skip
      grouped false (← loopOf fuel true)
    else if ← atReserved "until" then
      skip
      grouped false (← loopOf fuel false)
    else if ← atReserved "for" then
      skip
      grouped false (← eachOf fuel)
    else if ← atReserved "case" then
      skip
      match ← peek with
      | .word subject =>
        skip
        skipLineEnds
        expect "in"
        let arms ← armsOf fuel
        grouped false (.select subject arms)
      | _ => unexpected (some (spell "word"))
    else if ← atReserved "\x7b" then
      skip
      let body ← block fuel false none
      expect "\x7d"
      grouped false body
    else if ← atOperator "(" then
      skip
      let body ← block fuel false none
      expectOperator ")"
      grouped true body
    else
      match ← peek with
      | .word parts =>
        let isOut (w : Bytes) : Bool := closing.contains w || w = spell "in" || w = spell "!"
        if (plain? (.word parts)).any isOut then unexpected none
        else
          match ← simpleRest (← bound) start [] [] [] with
          | .simple line [] [word] [] =>
            if ← atOperator "(" then
              skip
              expectOperator ")"
              match plain? (.word word) with
              | some name =>
                if isName name && !guarded.contains name then
                  skipLineEnds
                  return .define name (← command fuel)
                else badFunction
              | none => badFunction
            else return .simple line [] [word] []
          | statement => return statement
      | .redirection .. | .text .. => simpleRest (← bound) start [] [] []
      | _ => unexpected none
where
  /-- Gives up because of the name of a function. -/
  badFunction : Reader Statement := do
    fail (← get).remaining (spell "Bad function name")

/-- Reads the rest of a loop after its first word. -/
def loopOf : Nat → Bool → Reader Statement
  | 0, _ => unexpected none
  | fuel + 1, expected => do
    let test ← block fuel false none
    expect "do"
    let body ← block fuel false none
    expect "done"
    return .loop expected test body

/-- Reads the rest of a loop over words after `for`. -/
def eachOf : Nat → Reader Statement
  | 0 => unexpected none
  | fuel + 1 => do
    match plain? (← peek) with
    | some name =>
      skip
      if !isName name then fail (← get).remaining (spell "Bad for loop variable")
      skipLineEnds
      let words ← if ← atReserved "in" then do
          skip
          let words ← wordsOf (← bound)
          match ← peek with
          | .lineEnd => skip
          | .operator spelling => if spelling = spell ";" then skip else unexpected none
          | _ => unexpected none
          pure (some words)
        else do
          if ← atOperator ";" then skip
          pure none
      skipLineEnds
      expect "do"
      let body ← block fuel false none
      expect "done"
      return .each name words body
    | none => do
      skip
      fail (← get).remaining (spell "Bad for loop variable")

/-- Reads the rest of a choice after `if` or `elif`. -/
def branches : Nat → Reader Statement
  | 0 => unexpected none
  | fuel + 1 => do
    let test ← block fuel false none
    expect "then"
    let consequence ← block fuel false none
    if ← atReserved "elif" then
      skip
      return .choice test consequence (← branches fuel)
    else if ← atReserved "else" then
      skip
      let alternative ← block fuel false none
      expect "fi"
      return .choice test consequence alternative
    else
      expect "fi"
      return .choice test consequence .nothing

/-- Reads arms up to `esac`. -/
def armsOf : Nat → Reader (List (List Word × Statement))
  | 0 => unexpected none
  | fuel + 1 => do
    skipLineEnds
    if ← atReserved "esac" then
      skip
      return []
    if ← atOperator "(" then skip
    let patterns ← patternsOf (← bound)
    expectOperator ")"
    let body ← block fuel true none
    skipLineEnds
    if ← atReserved "esac" then
      skip
      return [(patterns, body)]
    expectOperator ";;"
    return (patterns, body) :: (← armsOf fuel)

/-- Reads statements over several lines, up to a token that can begin none; `first` is what was read
before. -/
def block : Nat → Bool → Option Statement → Reader Statement
  | 0, _, _ => unexpected none
  | fuel + 1, mayBeEmpty, first => do
    skipLineEnds
    if (← peek) matches .finish then return first.getD .nothing
    if (mayBeEmpty || first.isSome) && (← endsBlock) then return first.getD .nothing
    let next ← andOr fuel
    match ← peek with
    | .operator spelling =>
      if spelling = spell "&" then
        skip
        block fuel mayBeEmpty (some (after first (inBackground next)))
      else if spelling = spell ";" then
        skip
        block fuel mayBeEmpty (some (after first next))
      else return after first next
    | .lineEnd => block fuel mayBeEmpty (some (after first next))
    | _ => return after first next

/-- Reads pipelines joined by `&&` and `||`. -/
def andOr : Nat → Reader Statement
  | 0 => unexpected none
  | fuel + 1 => do
    andOrRest fuel (← pipelineOf fuel)

/-- Goes on after a pipeline. -/
def andOrRest : Nat → Statement → Reader Statement
  | 0, _ => unexpected none
  | fuel + 1, first => do
    if ← atOperator "&&" then
      skip
      skipLineEnds
      andOrRest fuel (.conjunction first (← pipelineOf fuel))
    else if ← atOperator "||" then
      skip
      skipLineEnds
      andOrRest fuel (.disjunction first (← pipelineOf fuel))
    else return first

/-- Reads a pipeline, which may be turned into its opposite. -/
def pipelineOf : Nat → Reader Statement
  | 0 => unexpected none
  | fuel + 1 => do
    if ← atReserved "!" then
      skip
      return .negation (← stagesOf fuel [])
    else stagesOf fuel []

/-- Reads the stages of a pipeline; those read before are given. -/
def stagesOf : Nat → List Statement → Reader Statement
  | 0, _ => unexpected none
  | fuel + 1, stages => do
    let next ← command fuel
    if ← atOperator "|" then
      skip
      skipLineEnds
      stagesOf fuel (stages ++ [next])
    else if stages.isEmpty then return next
    else return .pipeline (stages ++ [next])

end

/-- Reads the statements of one complete line; tells whether a line end ends them. -/
def lineOf : Nat → Option Statement → Reader (Statement × Bool)
  | 0, _ => unexpected none
  | fuel + 1, first => do
    match ← peek with
    | .lineEnd =>
      skip
      return (first.getD .nothing, true)
    | .finish => return (first.getD .nothing, false)
    | _ =>
      let next ← andOr (8 * (← bound))
      match ← peek with
      | .lineEnd | .finish => lineOf fuel (some (after first next))
      | .operator spelling =>
        if spelling = spell "&" then
          skip
          lineOf fuel (some (after first (inBackground next)))
        else if spelling = spell ";" then
          skip
          lineOf fuel (some (after first next))
        else unexpected none
      | _ => unexpected none

end Reader

/-- What can be read at the beginning of a text. -/
inductive Next where
  /-- A statement, and what follows it. -/
  | statement (body : Statement) (rest : Remaining)
  | fault (line : Nat) (message : Bytes)
  /-- No complete line. -/
  | incomplete
  /-- There is nothing more. -/
  | finished

/-- The statement of the next complete line; with `final` nothing comes after the text. -/
def nextStatement (final : Bool) (r : Remaining) : Next :=
  match (Reader.lineOf (r.text.length + 2) none).run ⟨final, r, none⟩ with
  | .ok ((body, ended), cursor) =>
    if ended then .statement body cursor.remaining
    else if !final then .incomplete
    else if r.text.isEmpty then .finished
    else .statement body { cursor.remaining with text := [] }
  | .error fault => if fault.mendable && !final then .incomplete else .fault fault.line fault.message

end LineShell.Script
