import LineShell.Script.Syntax

/-!
# Tokens of scripts

A script is cut into words, operators and line ends, one at a time. Blanks separate tokens, and `#` at
the start of a token begins a comment. Inside a word

* a backslash quotes the next byte, and vanishes together with a line end;
* single quotes quote everything up to the next one;
* double quotes quote everything but parameters, commands, calculations, and backslashes before `$`,
  `"`, `\`, a backquote, or a line end;
* `$` begins a parameter, a command or a calculation, and backquotes enclose a command.

After `<<` and a word the text up to a line that consists of that word is taken out of the script, from
the next line on.
-/

namespace LineShell.Script

/-- A token. -/
inductive Token where
  | word (parts : Word)
  | operator (spelling : Bytes)
  /-- `<`, `>`, `>>`, `<&`, `>&` or the like, with the descriptor in front of it if one is written. -/
  | redirection (descriptor : Option Nat) (spelling : Bytes)
  /-- A text that stands in the script. -/
  | text (descriptor : Option Nat) (content : Word)
  | lineEnd
  /-- The end of the script. -/
  | finish

/-- Why no token can be read. -/
inductive TokenFault where
  /-- Something is not closed where the text ends, on this line, or what is open might go on. -/
  | unfinished (line : Nat) (message : String)
  | wrong (message : String)

/-! ## Bytes -/

/-- The byte of an ASCII character. -/
def code (c : Char) : UInt8 := c.toNat.toUInt8

/-- The bytes of an ASCII text. -/
def spell (s : String) : Bytes := s.toList.map code

/-- A decimal digit. -/
def isDigit (b : UInt8) : Bool := code '0' ≤ b && b ≤ code '9'

/-- A byte that a name may start with. -/
def startsName (b : UInt8) : Bool :=
  code 'a' ≤ b && b ≤ code 'z' || code 'A' ≤ b && b ≤ code 'Z' || b == code '_'

/-- A byte that a name may go on with. -/
def continuesName (b : UInt8) : Bool := startsName b || isDigit b

/-- Bytes that are a name. -/
def isName (bytes : Bytes) : Bool :=
  bytes.head?.any startsName && bytes.all continuesName

/-- A one-byte name of a special parameter. -/
def isSpecial (b : UInt8) : Bool :=
  (['@', '*', '#', '?', '$', '!', '-'].map code).contains b

/-- A byte that ends a word outside quotes. -/
def endsWord (b : UInt8) : Bool :=
  ([' ', '\t', '\n', ';', '&', '|', '(', ')', '<', '>'].map code).contains b

/-- The value of digits. -/
def digitsValue (digits : Bytes) : Nat :=
  digits.foldl (fun n d => n * 10 + (d - code '0').toNat) 0

/-- The number of line ends among some bytes. -/
def lineEnds (bytes : Bytes) : Nat := bytes.count (code '\n')

/-! ## Enclosed text -/

/-- The text up to a closing parenthesis that belongs to nothing inside it, and what follows; `depth` is
how many inner ones are open. -/
def enclosed : Nat → Nat → Bytes → Bytes → Option (Bytes × Bytes)
  | 0, _, _, _ => none
  | _, _, _, [] => none
  | fuel + 1, depth, done, b :: rest =>
    if b == code '\\' then
      match rest with
      | c :: rest => enclosed fuel depth (c :: b :: done) rest
      | [] => none
    else if b == code '\'' || b == code '"' then
      let inside := rest.takeWhile (· != b)
      match rest.drop inside.length with
      | close :: rest => enclosed fuel depth (close :: (inside.reverse ++ b :: done)) rest
      | [] => none
    else if b == code '(' then enclosed fuel (depth + 1) (b :: done) rest
    else if b == code ')' then
      match depth with
      | 0 => some (done.reverse, rest)
      | depth + 1 => enclosed fuel depth (b :: done) rest
    else enclosed fuel depth (b :: done) rest

/-- The script between backquotes, after the first one, and what follows. -/
def backquoted : Bytes → Bytes → Option (Bytes × Bytes)
  | _, [] => none
  | done, b :: rest =>
    if b == code '\x60' then some (done.reverse, rest)
    else if b == code '\\' then
      match rest with
      | c :: rest =>
        if [code '\\', code '\x60', code '$'].contains c then backquoted (c :: done) rest
        else backquoted (c :: b :: done) rest
      | [] => none
    else backquoted (b :: done) rest

/-! ## Words -/

/-- Where a reader stands in a word. -/
inductive Place where
  /-- Outside quotes: the word ends before a byte that ends words. -/
  | bare
  /-- In double quotes, which end it. -/
  | quotes
  /-- In the word of a parameter, which a brace ends. -/
  | brace (quoted : Bool)
  /-- In a text that goes on to the end. -/
  | open
  deriving DecidableEq

/-- What stands at a place is quoted. -/
def Place.isQuoted : Place → Bool
  | .bare => false
  | .quotes => true
  | .brace quoted => quoted
  | .open => true

/-- The parts of a word, last one first, with one more literal byte. -/
def addByte (parts : Word) (b : UInt8) (quoted : Bool) : Word :=
  match parts with
  | .literal bytes q :: rest =>
    if q == quoted then .literal (bytes ++ [b]) q :: rest else .literal [b] quoted :: parts
  | _ => .literal [b] quoted :: parts

/-- The operation that follows the name of a parameter in braces, and what comes after it. -/
def operation? (after : Bytes) : Option (Operation × Bytes) :=
  let withColon (colon : Bool) (rest : Bytes) : Option (Operation × Bytes) :=
    match rest with
    | b :: rest =>
      match Char.ofNat b.toNat with
      | '-' => some (.useDefault colon, rest)
      | '=' => some (.setDefault colon, rest)
      | '?' => some (.insist colon, rest)
      | '+' => some (.useAlternative colon, rest)
      | _ => none
    | [] => none
  match after with
  | 58 :: rest => withColon true rest
  | 35 :: 35 :: rest => some (.cutStart true, rest)
  | 35 :: rest => some (.cutStart false, rest)
  | 37 :: 37 :: rest => some (.cutEnd true, rest)
  | 37 :: rest => some (.cutEnd false, rest)
  | _ => withColon false after

/-- The name of a parameter at the beginning of a text. -/
def parameterName? (bytes : Bytes) : Option (Bytes × Bytes) :=
  match bytes with
  | [] => none
  | b :: rest =>
    if startsName b then some (bytes.takeWhile continuesName, bytes.dropWhile continuesName)
    else if isDigit b then some (bytes.takeWhile isDigit, bytes.dropWhile isDigit)
    else if isSpecial b then some ([b], rest)
    else none

mutual

/-- Reads on in a word, whose parts so far come last one first: its parts in order and what follows the
word. The text ends on line `ends`. -/
def readWord (ends : Nat) : Nat → Place → Word → Bytes → Except TokenFault (Word × Bytes)
  | 0, _, _, _ => .error (.wrong "Word too deep")
  | _, place, parts, [] =>
    match place with
    | .bare => .ok (parts.reverse, [])
    | .open => .ok (parts.reverse, [])
    | .quotes | .brace true => .error (.unfinished ends "Unterminated quoted string")
    | .brace false => .error (.unfinished ends "Missing '\x7d'")
  | fuel + 1, place, parts, b :: rest =>
    let quoted := place.isQuoted
    if place = .bare && endsWord b then .ok (parts.reverse, b :: rest)
    else if place = .quotes && b == code '"' then .ok (parts.reverse, rest)
    else if place matches .brace _ && b == code '\x7d' then .ok (parts.reverse, rest)
    else if !quoted && b == code '\'' then
      let inside := rest.takeWhile (· != b)
      match rest.drop inside.length with
      | _ :: rest => readWord ends fuel place (.literal inside true :: parts) rest
      | [] => .error (.unfinished ends "Unterminated quoted string")
    else if place != .quotes && place != .open && b == code '"' then
      match readWord ends fuel .quotes [] rest with
      | .ok (inside, rest) =>
        readWord ends fuel place (inside.reverse ++ .literal [] true :: parts) rest
      | .error fault => .error fault
    else if b == code '\\' then
      match rest with
      | [] => if quoted then .ok ((addByte parts b quoted).reverse, []) else .ok ((addByte parts b false).reverse, [])
      | c :: rest =>
        if c == code '\n' then readWord ends fuel place parts rest
        else if !quoted || (['$', '\\', '\x60'].map code).contains c ||
            place != .open && c == code '"' || place matches .brace _ && c == code '\x7d' then
          readWord ends fuel place (addByte parts c true) rest
        else readWord ends fuel place (addByte (addByte parts b true) c true) rest
    else if b == code '\x60' then
      match backquoted [] rest with
      | some (script, rest) => readWord ends fuel place (.command ⟨1, script⟩ quoted :: parts) rest
      | none => .error (.unfinished ends "EOF in backquote substitution")
    else if b == code '$' then
      match readDollar ends fuel quoted rest with
      | .ok (some (part, rest)) => readWord ends fuel place (part :: parts) rest
      | .ok none => readWord ends fuel place (addByte parts b quoted) rest
      | .error fault => .error fault
    else readWord ends fuel place (addByte parts b quoted) rest

/-- Reads what begins with a dollar sign, after it; nothing if that stands for itself. -/
def readDollar (ends : Nat) : Nat → Bool → Bytes → Except TokenFault (Option (Part × Bytes))
  | 0, _, _ => .error (.wrong "Word too deep")
  | fuel + 1, quoted, after =>
    match after with
    | 40 :: 40 :: rest =>
      match enclosed (rest.length + 1) 0 [] rest with
      | some (expression, 41 :: rest) =>
        match readWord (ends - lineEnds rest) fuel .open [] expression with
        | .ok (parts, _) => .ok (some (.calculation parts quoted, rest))
        | .error fault => .error fault
      | _ => .error (.unfinished ends "Missing '))'")
    | 40 :: rest =>
      match enclosed (rest.length + 1) 0 [] rest with
      | some (script, after) => .ok (some (.command ⟨ends - lineEnds rest, script⟩ quoted, after))
      | none => .error (.unfinished ends "end of file unexpected (expecting \")\")")
    | 123 :: 35 :: rest =>
      match parameterName? rest with
      | some (name, 125 :: rest) => .ok (some (.parameter name .length [] quoted, rest))
      | _ => readBraces ends fuel quoted (35 :: rest)
    | 123 :: rest => readBraces ends fuel quoted rest
    | b :: rest =>
      if isDigit b then .ok (some (.parameter [b] .value [] quoted, rest))
      else
        match parameterName? after with
        | some (name, rest) => .ok (some (.parameter name .value [] quoted, rest))
        | none => .ok none
    | [] => .ok none

/-- Reads a parameter in braces, after the first one. A line end in the place of an operation does not
count. -/
def readBraces (ends : Nat) : Nat → Bool → Bytes → Except TokenFault (Option (Part × Bytes))
  | 0, _, _ => .error (.wrong "Word too deep")
  | fuel + 1, quoted, rest =>
    let (name, after) := (parameterName? rest).getD ([], rest)
    let (operation, after) : Operation × Bytes :=
      match after with
      | 125 :: _ => (if name.isEmpty then .invalid else .value, after)
      | _ => if name.isEmpty then (.invalid, after) else (operation? after).getD (.invalid, after)
    let uncounted := if operation = .invalid && after.head? = some (code '\n') then 1 else 0
    match readWord (ends - uncounted) fuel (.brace quoted) [] after with
    | .ok (word, rest) => .ok (some (.parameter name operation word quoted, rest))
    | .error fault => .error fault

end

/-! ## Texts in the script -/

/-- The literal text of a word, and whether any of it is quoted. -/
def literalText (word : Word) : Bytes × Bool :=
  word.foldl (fun (bytes, quoted) part => match part with
    | .literal more q => (bytes ++ more, quoted || q)
    | _ => (bytes, quoted)) ([], false)

/-- Takes the lines up to one that consists of a word: the lines, and what follows that one. With `strip`
tabs in front of lines do not count. `none` if the word does not come. -/
def linesUpTo (delimiter : Bytes) (strip : Bool) : Nat → Bytes → Bytes → Bytes × Option Bytes
  | 0, done, _ => (done, none)
  | fuel + 1, done, text =>
    if text.isEmpty then (done, none)
    else
      let line := text.takeWhile (· != code '\n')
      let rest := text.drop (line.length + 1)
      let line := if strip then line.dropWhile (· == code '\t') else line
      let isLast := !text.contains (code '\n')
      if line = delimiter then (done, some rest)
      else if isLast then (done ++ line, none)
      else linesUpTo delimiter strip fuel (done ++ line ++ [code '\n']) rest

/-! ## The next token -/

/-- The operators, longer ones first. -/
def operators : List Bytes := ["&&", "||", ";;", ";", "&", "|", "(", ")"].map spell

/-- The redirection operators, longer ones first. -/
def redirections : List Bytes := ["<<-", "<<", ">>", ">&", "<&", ">|", "<>", ">", "<"].map spell

/-- The first of some spellings that a text starts with, and what follows it. -/
def spelled? (spellings : List Bytes) (bytes : Bytes) : Option (Bytes × Bytes) :=
  spellings.findSome? fun s => if s.isPrefixOf bytes then some (s, bytes.drop s.length) else none

/-- A text that is left of a script, and the line that it starts on. -/
structure Remaining where
  line : Nat
  text : Bytes
  /-- The number of lines that were taken out after the line at hand. -/
  taken : Nat

/-- Reads the word at the beginning of a text. -/
def wordAt (r : Remaining) : Except TokenFault (Word × Remaining) :=
  (readWord (r.line + lineEnds r.text) (2 * r.text.length + 4) .bare [] r.text).map fun (parts, rest) =>
    let line := r.line + lineEnds (r.text.take (r.text.length - rest.length))
    (parts, { r with line, text := rest })

/-- Takes a text out of the script, from the next line on, after its operator. With `final` a text that
is not closed goes on to the end. -/
def textAt (final strip : Bool) (descriptor : Option Nat) (r : Remaining) :
    Except TokenFault (Token × Remaining) := do
  let isBlank (b : UInt8) : Bool := b == code ' ' || b == code '\t'
  let text := r.text.dropWhile isBlank
  if text.head?.all endsWord then
    return (.redirection descriptor (spell "<<"), { r with text })
  let (delimiter, r) ← wordAt { r with text }
  let (word, quoted) := literalText delimiter
  let line := r.text.takeWhile (· != code '\n')
  let (content, rest) := linesUpTo word strip (r.text.length + 1) [] (r.text.drop (line.length + 1))
  match if final then some (rest.getD []) else rest with
  | none => throw (.unfinished (r.line + lineEnds r.text) "")
  | some rest =>
    let ends := r.line + 1 + r.taken + lineEnds content
    let parts ← if quoted then pure [Part.literal content true]
      else (readWord ends (2 * content.length + 4) .open [] content).map Prod.fst
    let after := r.text.drop (line.length + 1)
    let taken := lineEnds (after.take (after.length - rest.length))
    return (.text descriptor parts, ⟨r.line, line ++ code '\n' :: rest, r.taken + taken⟩)

/-- The next token of a text, and what follows it; with `final` nothing comes after the text. -/
def nextToken (final : Bool) : Nat → Remaining → Except TokenFault (Token × Remaining)
  | 0, r => .ok (.finish, r)
  | fuel + 1, r =>
    match r.text with
    | [] => .ok (.finish, r)
    | b :: rest =>
      if b == code ' ' || b == code '\t' then nextToken final fuel { r with text := rest }
      else if b == code '\n' then .ok (.lineEnd, ⟨r.line + 1 + r.taken, rest, 0⟩)
      else if b == code '#' then
        nextToken final fuel { r with text := rest.dropWhile (· != code '\n') }
      else if [code '\\', code '\n'].isPrefixOf r.text then
        nextToken final fuel { r with line := r.line + 1, text := rest.drop 1 }
      else
        let number := if isDigit b then [b] else []
        match spelled? redirections (r.text.drop number.length) with
        | some (spelling, rest) =>
          let descriptor := if number.isEmpty then none else some (digitsValue number)
          if spelling = spell "<<" || spelling = spell "<<-" then
            textAt final (spelling = spell "<<-") descriptor { r with text := rest }
          else .ok (.redirection descriptor spelling, { r with text := rest })
        | none =>
          match spelled? operators r.text with
          | some (spelling, rest) => .ok (.operator spelling, { r with text := rest })
          | none => (wordAt r).map fun (parts, after) => (.word parts, after)

end LineShell.Script
