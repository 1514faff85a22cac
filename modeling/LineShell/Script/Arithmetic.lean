import LineShell.Script.Token
import LineShell.Utility.Escape

/-!
# Calculations

Whole numbers of 64 bits, with the operators of common use: from assignments and choices down to signs
and parentheses. A name stands for the value of a variable, and for 0 where that is not set; numbers
are decimal, octal after a 0, or hexadecimal after 0x. What `&&`, `||` and a choice do not need does
not count.
-/

namespace LineShell.Script

/-- Why a calculation has no value. -/
inductive CalculationFault where
  | missingOperand
  | missingColon
  | missingParenthesis
  | leftOver
  | divisionByZero
  | badNumber (text : Bytes)

/-- The text for a calculation without a value. -/
def CalculationFault.message (expression : Bytes) : CalculationFault → Bytes
  | .missingOperand => about "expecting primary"
  | .missingColon => about "expecting ':'"
  | .missingParenthesis => about "expecting ')'"
  | .leftOver => about "expecting EOF"
  | .divisionByZero => about "division by zero"
  | .badNumber text => ascii "Illegal number: " ++ text
where
  /-- A text about the whole expression. -/
  about (what : String) : Bytes :=
    ascii "arithmetic expression: " ++ ascii what ++ ascii ": \"" ++ expression ++ ascii "\""

namespace Calculation

/-- A token of a calculation. -/
inductive Token where
  | number (value : Int)
  | name (bytes : Bytes)
  | operator (spelling : Bytes)
  deriving DecidableEq

/-- The value of a number in 64 bits. -/
def wrap (n : Int) : Int := n.bmod (Nat.pow 2 64)

/-- The number that a text spells, if it does. -/
def number? (text : Bytes) : Option Int :=
  let (negative, digits) := match text with
    | 45 :: rest => (true, rest)
    | 43 :: rest => (false, rest)
    | rest => (false, rest)
  let base (radix : Nat) (digits : Bytes) : Option Int :=
    if digits.isEmpty then none
    else
      (digits.foldlM (fun n b => (digitValue? radix b).map fun d => n * radix + d) 0).map Int.ofNat
  let value := match digits with
    | 48 :: 120 :: rest => base 16 rest
    | 48 :: 88 :: rest => base 16 rest
    | 48 :: rest => if rest.isEmpty then some 0 else base 8 rest
    | rest => base 10 rest
  value.map fun n => if negative then -n else n

/-- The operators, longer ones first. -/
def operators : List Bytes :=
  ["<<=", ">>=", "<<", ">>", "<=", ">=", "==", "!=", "&&", "||", "+=", "-=", "*=", "/=", "%=", "&=",
    "^=", "|=", "+", "-", "*", "/", "%", "<", ">", "=", "!", "~", "&", "^", "|", "?", ":", "(",
    ")"].map spell

/-- The tokens of a text. -/
def tokens : Nat → Bytes → Except CalculationFault (List Token)
  | 0, _ => .ok []
  | _, [] => .ok []
  | fuel + 1, b :: rest =>
    if b == 32 || b == 9 || b == 10 then tokens fuel rest
    else if isDigit b then
      let digits := (b :: rest).takeWhile continuesName
      match number? digits with
      | some n => (tokens fuel ((b :: rest).drop digits.length)).map (.number n :: ·)
      | none => .error .leftOver
    else if startsName b then
      let name := (b :: rest).takeWhile continuesName
      (tokens fuel ((b :: rest).drop name.length)).map (.name name :: ·)
    else
      match spelled? operators (b :: rest) with
      | some (spelling, rest) => (tokens fuel rest).map (.operator spelling :: ·)
      | none => (tokens fuel rest).map (.operator [b] :: ·)

/-- A calculation on its way: the tokens that are left and the variables set so far. What is done
without `effective` sets nothing and finds no fault in a division. -/
structure State where
  tokens : List Token
  settings : List (Bytes × Int)
  effective : Bool

/-- Calculations, which look variables up. -/
abbrev Reader := StateT State (ReaderT (Bytes → Option Bytes) (Except CalculationFault))

/-- Passes an operator if it is one of these. -/
def operator? (spellings : List String) : Reader (Option Bytes) := do
  match (← get).tokens with
  | .operator spelling :: rest =>
    if (spellings.map spell).contains spelling then
      modify fun state => { state with tokens := rest }
      return some spelling
    else return none
  | _ => return none

/-- Carries a part out, of which the effects count only if a condition holds. -/
def only (condition : Bool) (part : Reader Int) : Reader Int := do
  let effective := (← get).effective
  modify fun state => { state with effective := effective && condition }
  let value ← part
  modify fun state => { state with effective }
  return value

/-- The value of a variable. -/
def lookup (name : Bytes) : Reader Int := do
  match (← get).settings.lookup name with
  | some value => return value
  | none =>
    match (← read) name with
    | none | some [] => return 0
    | some text =>
      match number? text with
      | some n => return wrap n
      | none => throw (.badNumber text)

/-- Applies a binary operator. -/
def apply (spelling : Bytes) (a b : Int) : Reader Int := do
  let truth (p : Bool) : Int := if p then 1 else 0
  let unsigned (n : Int) : Nat := (n % Int.pow 2 64).toNat
  let divide (f : Int → Int → Int) : Reader Int := do
    if b = 0 then
      if (← get).effective then throw .divisionByZero else return 0
    else return wrap (f a b)
  match String.ofList (spelling.map fun b => Char.ofNat b.toNat) with
  | "|" => return wrap (unsigned a ||| unsigned b : Nat)
  | "^" => return wrap (unsigned a ^^^ unsigned b : Nat)
  | "&" => return wrap (unsigned a &&& unsigned b : Nat)
  | "==" => return truth (a == b)
  | "!=" => return truth (a != b)
  | "<" => return truth (a < b)
  | "<=" => return truth (a ≤ b)
  | ">" => return truth (b < a)
  | ">=" => return truth (b ≤ a)
  | "<<" => return wrap (a * Int.pow 2 (unsigned b % 64))
  | ">>" => return a.fdiv (Int.pow 2 (unsigned b % 64))
  | "+" => return wrap (a + b)
  | "-" => return wrap (a - b)
  | "*" => return wrap (a * b)
  | "/" => divide Int.tdiv
  | "%" => divide Int.tmod
  | _ => throw .missingOperand

/-- The binary operators by level, loosest first. -/
def levels : List (List String) :=
  [["|"], ["^"], ["&"], ["==", "!="], ["<=", ">=", "<", ">"], ["<<", ">>"], ["+", "-"],
    ["*", "/", "%"]]

/-- The operators that set a variable. -/
def settingOperators : List String :=
  ["=", "+=", "-=", "*=", "/=", "%=", "<<=", ">>=", "&=", "^=", "|="]

mutual

/-- Setting a variable, or a choice. -/
def assignment : Nat → Reader Int
  | 0 => throw .missingOperand
  | fuel + 1 => do
    match (← get).tokens with
    | .name name :: .operator spelling :: rest =>
      if (settingOperators.map spell).contains spelling then
        modify fun state => { state with tokens := rest }
        let value ← assignment fuel
        let value ← if spelling = spell "=" then pure value
          else apply spelling.dropLast (← lookup name) value
        modify fun state =>
          if state.effective then { state with settings := (name, value) :: state.settings } else state
        return value
      else choice fuel
    | _ => choice fuel

/-- A choice, or a disjunction. -/
def choice : Nat → Reader Int
  | 0 => throw .missingOperand
  | fuel + 1 => do
    let test ← disjunction fuel
    match ← operator? ["?"] with
    | none => return test
    | some _ =>
      let first ← only (test != 0) (assignment fuel)
      match ← operator? [":"] with
      | none => throw .missingColon
      | some _ =>
        let second ← only (test == 0) (choice fuel)
        return if test != 0 then first else second

/-- Conjunctions joined by `||`. -/
def disjunction : Nat → Reader Int
  | 0 => throw .missingOperand
  | fuel + 1 => do
    let a ← conjunction fuel
    match ← operator? ["||"] with
    | none => return a
    | some _ =>
      let b ← only (a == 0) (disjunction fuel)
      return if a != 0 || b != 0 then 1 else 0

/-- Operations joined by `&&`. -/
def conjunction : Nat → Reader Int
  | 0 => throw .missingOperand
  | fuel + 1 => do
    let a ← binary fuel levels
    match ← operator? ["&&"] with
    | none => return a
    | some _ =>
      let b ← only (a != 0) (conjunction fuel)
      return if a != 0 && b != 0 then 1 else 0

/-- Operations from a level on. -/
def binary : Nat → List (List String) → Reader Int
  | 0, _ => throw .missingOperand
  | fuel + 1, [] => unary fuel
  | fuel + 1, spellings :: tighter => do
    binaryRest fuel spellings tighter (← binary fuel tighter)

/-- Goes on with operators of one level. -/
def binaryRest : Nat → List String → List (List String) → Int → Reader Int
  | 0, _, _, _ => throw .missingOperand
  | fuel + 1, spellings, tighter, a => do
    match ← operator? spellings with
    | none => return a
    | some spelling =>
      let b ← binary fuel tighter
      binaryRest fuel spellings tighter (← apply spelling a b)

/-- A value with signs in front of it. -/
def unary : Nat → Reader Int
  | 0 => throw .missingOperand
  | fuel + 1 => do
    match ← operator? ["-", "+", "!", "~"] with
    | some spelling =>
      let value ← unary fuel
      if spelling = spell "-" then return wrap (-value)
      else if spelling = spell "!" then return if value = 0 then 1 else 0
      else if spelling = spell "~" then return wrap (-value - 1)
      else return value
    | none =>
      match (← get).tokens with
      | .number n :: rest =>
        modify fun state => { state with tokens := rest }
        return wrap n
      | .name name :: rest =>
        modify fun state => { state with tokens := rest }
        lookup name
      | .operator spelling :: rest =>
        if spelling = spell "(" then
          modify fun state => { state with tokens := rest }
          let value ← assignment fuel
          match ← operator? [")"] with
          | some _ => return value
          | none => throw .missingParenthesis
        else throw .missingOperand
      | [] => throw .missingOperand

end

/-- The whole of a calculation. -/
def whole (fuel : Nat) : Reader Int := do
  if (← get).tokens.isEmpty then return 0
  let value ← assignment fuel
  if (← get).tokens.isEmpty then return value else throw .leftOver

end Calculation

/-- The value of a calculation, and the variables that it sets, last one first. -/
def calculate (lookup : Bytes → Option Bytes) (expression : Bytes) :
    Except CalculationFault (Int × List (Bytes × Int)) := do
  let tokens ← Calculation.tokens (expression.length + 1) expression
  let run := (Calculation.whole (16 * tokens.length + 16)).run ⟨tokens, [], true⟩
  let (value, state) ← run.run lookup
  return (value, state.settings)

end LineShell.Script
