import LineShell.Utility.Basic

/-!
# Programs that answer by their exit code

`test` (also as `[`) decides a condition on files, texts and numbers; `expr` computes a value, and
fails when that is empty or zero.
-/

namespace LineShell.Utility

/-! ## test -/

/-- Why a condition cannot be decided. -/
inductive ConditionFault where
  | notInteger (text : Bytes)
  | unknownUnary (operator : Bytes)
  | unknownBinary (operator : Bytes)
  | missingArgument (after : Bytes)
  | extraArgument (argument : Bytes)

/-- The text for a condition that cannot be decided. -/
def ConditionFault.message : ConditionFault → Bytes
  | .notInteger text => ascii "invalid integer " ++ quoted text
  | .unknownUnary operator => quoted operator ++ ascii ": unary operator expected"
  | .unknownBinary operator => quoted operator ++ ascii ": binary operator expected"
  | .missingArgument after => ascii "missing argument after " ++ quoted after
  | .extraArgument argument => ascii "extra argument " ++ quoted argument

/-- A condition on one argument: `-z`, `-n`, or one on a file. -/
def unary? (operator : Bytes) : Option (FileTree → Bytes → Bool) :=
  let onNode (p : FileTree → Nat → Bool) : Option (FileTree → Bytes → Bool) :=
    some fun files path => (files.lookup path).toOption.any (p files)
  let isFile (files : FileTree) (id : Nat) : Bool := match files.get? id with
    | some (.file ..) | some (.program _) => true
    | _ => false
  let isDevice (files : FileTree) (id : Nat) : Bool := match files.get? id with
    | some (.device _) => true
    | _ => false
  let size (files : FileTree) (id : Nat) : Nat := match files.get? id with
    | some (.file _ content) => content.length
    | some (.directory ..) | some (.program _) => 1
    | _ => 0
  let has (right : Right) : Option (FileTree → Bytes → Bool) :=
    onNode fun files id => files.allows id right
  match operator with
  | [45, b] =>
    match Char.ofNat b.toNat with
    | 'z' => some fun _ text => text.isEmpty
    | 'n' => some fun _ text => !text.isEmpty
    | 'e' => onNode fun _ _ => true
    | 'f' => onNode isFile
    | 'd' => onNode FileTree.isDirectory
    | 'c' => onNode isDevice
    | 's' => onNode fun files id => size files id != 0
    | 'r' => has .read
    | 'w' => has .write
    | 'x' => has .execute
    | 'b' | 'p' | 'S' | 'L' | 'h' | 'u' | 'g' | 'k' | 't' => some fun _ _ => false
    | _ => none
  | _ => none

/-- A condition on two texts, or the text that should have been a number. -/
def binary? (operator : Bytes) : Option (Bytes → Bytes → Except ConditionFault Bool) :=
  let onTexts (p : Bytes → Bytes → Bool) : Option (Bytes → Bytes → Except ConditionFault Bool) :=
    some fun a b => .ok (p a b)
  let onNumbers (p : Int → Int → Bool) : Option (Bytes → Bytes → Except ConditionFault Bool) :=
    some fun a b => match integer? a, integer? b with
      | some x, some y => .ok (p x y)
      | none, _ => .error (.notInteger a)
      | _, none => .error (.notInteger b)
  if operator = ascii "=" || operator = ascii "==" then onTexts (· == ·)
  else if operator = ascii "!=" then onTexts (· != ·)
  else if operator = ascii "<" then onTexts fun a b => a < b
  else if operator = ascii ">" then onTexts fun a b => b < a
  else if operator = ascii "-eq" then onNumbers (· == ·)
  else if operator = ascii "-ne" then onNumbers (· != ·)
  else if operator = ascii "-lt" then onNumbers fun a b => a < b
  else if operator = ascii "-le" then onNumbers fun a b => a ≤ b
  else if operator = ascii "-gt" then onNumbers fun a b => b < a
  else if operator = ascii "-ge" then onNumbers fun a b => b ≤ a
  else none

/-- Decides a condition. -/
def condition (files : FileTree) : Nat → List Bytes → Except ConditionFault Bool
  | 0, _ => .ok false
  | fuel + 1, arguments =>
    let isBang (a : Bytes) : Bool := a = [33]
    match arguments with
    | [] => .ok false
    | [a] => .ok (!a.isEmpty)
    | [operator, a] =>
      if isBang operator then .ok a.isEmpty
      else
        match unary? operator with
        | some f => .ok (f files a)
        | none =>
          match operator with
          | [45, _] => .error (.unknownUnary operator)
          | _ => .error (.missingArgument a)
    | [a, operator, b] =>
      match binary? operator with
      | some f => f a b
      | none =>
        if isBang a then (condition files fuel [operator, b]).map (!·)
        else if a = [40] && b = [41] then .ok (!operator.isEmpty)
        else if operator = ascii "-a" then .ok (!a.isEmpty && !b.isEmpty)
        else if operator = ascii "-o" then .ok (!a.isEmpty || !b.isEmpty)
        else .error (.unknownBinary operator)
    | first :: rest =>
      match arguments.findIdx? (· = ascii "-o") with
      | some i => do
        let a ← condition files fuel (arguments.take i)
        let b ← condition files fuel (arguments.drop (i + 1))
        return a || b
      | none =>
        match arguments.findIdx? (· = ascii "-a") with
        | some i => do
          let a ← condition files fuel (arguments.take i)
          let b ← condition files fuel (arguments.drop (i + 1))
          return a && b
        | none =>
          if isBang first then (condition files fuel rest).map (!·)
          else if first = [40] && rest.getLast? = some [41] then condition files fuel rest.dropLast
          else .error (.extraArgument (arguments.getD 3 []))

/-- Decides a condition under a name. -/
def answer (name : String) (arguments : List Bytes) : Run Nat := do
  match condition (← Run.files) (arguments.length + 1) arguments with
  | .ok true => return 0
  | .ok false => return 1
  | .error fault => Run.fail name fault.message 2

/-- Decides the condition that its arguments state. -/
def test : Utility := answer "test"

/-- Decides the condition before its last argument, a closing bracket. -/
def bracketTest : Utility := fun arguments => do
  if arguments.getLast? = some [93] then answer "[" arguments.dropLast
  else Run.fail "[" (ascii "missing " ++ quoted [93]) 2

/-! ## expr -/

/-- The operators of `expr`, loosest first. -/
def exprLevels : List (List Bytes) :=
  [[ascii "|"], [ascii "&"],
    [ascii "<", ascii "<=", ascii "=", ascii "==", ascii "!=", ascii ">=", ascii ">"],
    [ascii "+", ascii "-"], [ascii "*", ascii "/", ascii "%"]]

/-- A value that counts as false. -/
def isNull (value : Bytes) : Bool :=
  value.isEmpty || integer? value = some 0

/-- Applies an operator of `expr`. -/
def exprApply (operator a b : Bytes) : Except Bytes Bytes :=
  let arithmetic (f : Int → Int → Except Bytes Int) : Except Bytes Bytes :=
    match integer? a, integer? b with
    | some x, some y => (f x y).map decimal
    | _, _ => .error (ascii "non-integer argument")
  let order : Ordering := match integer? a, integer? b with
    | some x, some y => compare x y
    | _, _ => (a.map UInt8.toNat).foldr (fun x rest ys => match ys with
        | [] => .gt
        | y :: ys => (compare x y).then (rest ys)) (fun ys => if ys.isEmpty then .eq else .lt)
        (b.map UInt8.toNat)
  let truth (p : Bool) : Except Bytes Bytes := .ok (if p then [49] else [48])
  if operator = ascii "|" then .ok (if !isNull a then a else if !isNull b then b else [48])
  else if operator = ascii "&" then .ok (if isNull a || isNull b then [48] else a)
  else if operator = ascii "<" then truth (order == .lt)
  else if operator = ascii "<=" then truth (order != .gt)
  else if operator = ascii "=" || operator = ascii "==" then truth (order == .eq)
  else if operator = ascii "!=" then truth (order != .eq)
  else if operator = ascii ">=" then truth (order != .lt)
  else if operator = ascii ">" then truth (order == .gt)
  else if operator = ascii "+" then arithmetic fun x y => .ok (x + y)
  else if operator = ascii "-" then arithmetic fun x y => .ok (x - y)
  else if operator = ascii "*" then arithmetic fun x y => .ok (x * y)
  else if operator = ascii "/" then
    arithmetic fun x y => if y = 0 then .error (ascii "division by zero") else .ok (x.tdiv y)
  else arithmetic fun x y => if y = 0 then .error (ascii "division by zero") else .ok (x.tmod y)

mutual

/-- Evaluates from a level of operators on; the previous argument is for the message. -/
def exprLevel (fuel : Nat) (levels : List (List Bytes)) (previous : Bytes) (arguments : List Bytes) :
    Except Bytes (Bytes × Bytes × List Bytes) :=
  match fuel, levels with
  | 0, _ => .error (ascii "syntax error")
  | fuel + 1, [] =>
    match arguments with
    | [] => .error (ascii "syntax error: missing argument after " ++ quoted previous)
    | first :: rest =>
      if first = [40] then do
        let (value, previous, rest) ← exprLevel fuel exprLevels first rest
        match rest with
        | [41] :: rest => return (value, [41], rest)
        | [] => throw (ascii "syntax error: expecting ')' after " ++ quoted previous)
        | other :: _ => throw (ascii "syntax error: expecting ')' instead of " ++ quoted other)
      else
        match first == ascii "length", rest with
        | true, text :: rest => return (decimal text.length, text, rest)
        | _, _ => return (first, first, rest)
  | fuel + 1, operators :: tighter => do
    let (value, previous, rest) ← exprLevel fuel tighter previous arguments
    exprRest fuel operators tighter value previous rest
termination_by (fuel, 1)

/-- Goes on with operators of one level. -/
def exprRest (fuel : Nat) (operators : List Bytes) (tighter : List (List Bytes))
    (value previous : Bytes) (arguments : List Bytes) : Except Bytes (Bytes × Bytes × List Bytes) :=
  match fuel, arguments with
  | fuel + 1, operator :: rest =>
    if operators.contains operator then do
      let (other, previous, rest) ← exprLevel fuel tighter operator rest
      let value ← exprApply operator value other
      exprRest fuel operators tighter value previous rest
    else .ok (value, previous, operator :: rest)
  | _, rest => .ok (value, previous, rest)
termination_by (fuel, 0)

end

/-- Writes the value of its arguments. -/
def expr : Utility := fun arguments => do
  if arguments.isEmpty then Run.usage "expr" (ascii "missing operand") 2
  else
    match exprLevel (8 * arguments.length + 8) exprLevels [] arguments with
    | .error message => Run.fail "expr" message 2
    | .ok (value, _, []) =>
      let _ ← Run.print (value ++ [10])
      Run.finish "expr" 3 (if isNull value then 1 else 0)
    | .ok (_, _, extra :: _) =>
      Run.fail "expr" (ascii "syntax error: unexpected argument " ++ quoted extra) 2

end LineShell.Utility
