import LineShell.Script.Pattern
import LineShell.Script.Signal
import LineShell.Script.State
import LineShell.Utility.Condition
import LineShell.Utility.Output

/-!
# The builtins of scripts

A builtin gets its arguments and brings an exit code. Here are those that carry no statements out. A
builtin is either special, so that a fault in it ends the script and settings in front of it last, or
regular.
-/

namespace LineShell.Script

/-- A command that a script carries out itself. -/
abbrev Builtin := List Bytes → Sh Nat

namespace Builtin

/-- Writes output, and fails where that is refused. -/
def put (code : Nat) (bytes : Bytes) : Sh Nat := do
  match ← Sh.run (Run.write 1 bytes) with
  | .ok () => return code
  | .error _ =>
    Sh.complain (((← get).builtin.getD []) ++ ascii ": I/O error")
    return 1

/-- The greatest number that an argument may be. -/
def greatestNumber : Nat := 2147483647

/-- The value of an argument, which has to be a number. -/
def numberOf (argument : Bytes) : Sh Nat := do
  match number? argument with
  | some n => if n ≤ greatestNumber then return n else bad
  | none => bad
where
  /-- Refuses the argument. -/
  bad : Sh Nat := Sh.stop (ascii "Illegal number: " ++ argument)

/-! ## Output -/

/-- Writes its arguments as a line, with escapes replaced. -/
def echo : Builtin := fun arguments => do
  let (noEnd, words) := match arguments with
    | first :: rest => if first = ascii "-n" then (true, rest) else (false, arguments)
    | [] => (false, [])
  let (line, stopped) := unescape true false (Utility.joinWords words)
  put 0 (if noEnd || stopped then line else line ++ [10])

/-- Writes its arguments as a format says. -/
def printf : Builtin := fun arguments => do
  match if arguments.head? = some (ascii "--") then arguments.tail else arguments with
  | [] => Sh.refuse (ascii "usage: printf format [arg ...]")
  | format :: arguments =>
    let result := Utility.formatArguments format arguments
    result.complaints.forM fun
      | .notNumber argument => Sh.complain (argument ++ ascii ": expected numeric value")
      | .notAllNumber argument => Sh.complain (argument ++ ascii ": not completely converted")
      | .badConversion letter => Sh.complain (ascii "%" ++ letter ++ ascii ": invalid directive")
    let isBad := result.complaints.any (· matches .badConversion _)
    put (if isBad then 2 else if result.complaints.isEmpty then 0 else 1) result.output.reverse

/-! ## Conditions -/

/-- Decides a condition. -/
def answer (arguments : List Bytes) : Sh Nat := do
  let files ← Sh.run Run.files
  let isEqual := arguments.length = 3 && arguments[1]? = some (ascii "==")
  match Utility.condition files (arguments.length + 1) arguments, isEqual with
  | .ok true, false => return 0
  | .ok false, false => return 1
  | .error (.notInteger text), _ => Sh.refuse (ascii "Illegal number: " ++ text)
  | _, _ => Sh.refuse (arguments.headD [] ++ ascii ": unexpected operator")

/-- Decides the condition before its last argument, a closing bracket. -/
def bracket : Builtin := fun arguments =>
  if arguments.getLast? = some [93] then answer arguments.dropLast
  else Sh.refuse (ascii "missing ]")

/-! ## Control -/

/-- Ends the script. -/
def exit : Builtin := fun arguments => do
  match arguments with
  | [] => throw (.ending (← get).status)
  | code :: _ => throw (.ending (← numberOf code))

/-- Leaves a function, or the text of a script. -/
def leaveFunction : Builtin := fun arguments => do
  let code ← match arguments with
    | [] => pure (← get).status
    | code :: _ => numberOf code
  Sh.setStatus code
  throw .returning

/-- Leaves loops, in one way or the other. -/
def leaveLoops (leave : Nat → Leave) : Builtin := fun arguments => do
  let levels ← match arguments with
    | [] => pure 1
    | levels :: _ => numberOf levels
  if levels = 0 then Sh.stop (ascii "Illegal number: 0")
  match min levels (← get).loops with
  | 0 => return 0
  | levels => do
    Sh.setStatus 0
    throw (leave levels)

/-- Drops arguments of the script. -/
def shift : Builtin := fun arguments => do
  let count ← match arguments with
    | [] => pure 1
    | count :: _ => numberOf count
  if (← get).arguments.length < count then Sh.stop (ascii "can't shift that many")
  modify fun state => { state with arguments := state.arguments.drop count }
  return 0

/-! ## Variables -/

/-- The name and the value in an argument such as `name=value`. -/
def settingOf (argument : Bytes) : Sh (Bytes × Option Bytes) := do
  let name := argument.takeWhile (· != 61)
  if !isName name then Sh.stop (argument ++ ascii ": bad variable name")
  return (name, if name.length < argument.length then some (argument.drop (name.length + 1)) else none)

/-- Changes variables named by arguments, after setting those that are given a value. -/
def mark (change : Variable → Variable) : Builtin := fun arguments => do
  for argument in arguments do
    if argument.head? != some 45 then
      let (name, value) ← settingOf argument
      if let some value := value then Sh.assign name value false
      let before := ((← get).bindings.lookup name).getD ⟨none, false, false⟩
      Sh.setVariable name (some (change before))
  return 0

/-- Keeps variables to a function. -/
def keep : Builtin := fun arguments => do
  match (← get).locals with
  | [] => Sh.stop (ascii "not in a function")
  | kept :: others =>
    for argument in arguments do
      let (name, value) ← settingOf argument
      let before := (← get).bindings.lookup name
      modify fun state => match state.locals with
        | kept :: others => { state with locals := ((name, before) :: kept) :: others }
        | [] => { state with locals := kept :: others }
      if let some value := value then Sh.assign name value false
    return 0

/-- Takes variables or functions away. -/
def unset : Builtin := fun arguments => do
  let functions := arguments.head? = some (ascii "-f")
  for name in arguments do
    if name.head? != some 45 then
      if functions then
        modify fun state =>
          { state with functions := state.functions.filter fun entry => entry.1 != name }
      else
        if !isName name then Sh.stop (name ++ ascii ": bad variable name")
        Sh.demandSettable name
        Sh.setVariable name none
  return 0

/-- The options with one of them switched. -/
def switched (options : Options) (on : Bool) (letter : UInt8) : Option Options :=
  match Char.ofNat letter.toNat with
  | 'e' => some { options with errorExit := on }
  | 'u' => some { options with strict := on }
  | 'x' => some { options with trace := on }
  | 'f' => some { options with noNames := on }
  | 'a' | 'b' | 'C' | 'h' | 'm' | 'n' | 'v' => some options
  | _ => none

/-- The letter of an option that is written out. -/
def optionLetter? (name : Bytes) : Option UInt8 :=
  ([("errexit", 101), ("nounset", 117), ("xtrace", 120), ("noglob", 102)].find? fun entry =>
    ascii entry.1 = name).map Prod.snd

/-- Switches options, and replaces the arguments of the script where others are given. -/
def setOptions : Builtin := fun arguments =>
  go arguments
where
  /-- Goes on with the arguments that are left. -/
  go : List Bytes → Sh Nat
    | [] => return 0
    | argument :: rest => do
      let on := argument.head? = some 45
      if argument = ascii "--" then replace rest
      else if argument.length < 2 || !(on || argument.head? = some 43) then replace (argument :: rest)
      else
        match argument, rest with
        | [_, 111], name :: rest =>
          match optionLetter? name with
          | some letter =>
            switch on [letter]
            go rest
          | none => Sh.stop (ascii "Illegal option -o " ++ name)
        | _, rest =>
          switch on argument.tail
          go rest
  /-- Switches options by their letters. -/
  switch (on : Bool) (letters : Bytes) : Sh Unit :=
    letters.forM fun letter => do
      match switched (← get).options on letter with
      | some options => modify fun state => { state with options }
      | none => Sh.stop (ascii "Illegal option -" ++ [letter])
  /-- Replaces the arguments. -/
  replace (arguments : List Bytes) : Sh Nat := do
    modify fun state => { state with arguments }
    return 0

/-! ## Reading -/

/-- Reads a line byte by byte, last one first; a backslash quotes what follows it, unless `raw`. Tells
whether the line has its end. -/
def readLine (raw : Bool) : Nat → List Glyph → Run (List Glyph × Bool)
  | 0, line => return (line, false)
  | more + 1, line => do
    match ← Run.readSome 0 1 with
    | .ok (b :: _) =>
      if b = 10 then return (line, true)
      else if b = 0 then readLine raw more line
      else if b = 92 && !raw then
        match ← Run.readSome 0 1 with
        | .ok (c :: _) => readLine raw more (if c = 10 then line else ⟨c, true⟩ :: line)
        | _ => return (line, false)
      else readLine raw more (⟨b, false⟩ :: line)
    | _ => return (line, false)

/-- Parts of a line for so many names, the last of which gets all that is left. -/
def shares (separators : Bytes) : Nat → List Glyph → List Bytes
  | 0, _ => []
  | 1, line =>
    let isBlank (g : Glyph) : Bool :=
      !g.quoted && separators.contains g.byte && Sh.usualSeparators.contains g.byte
    [bytesOf (line.reverse.dropWhile isBlank).reverse]
  | more + 1, line =>
    let isSeparator (g : Glyph) : Bool := !g.quoted && separators.contains g.byte
    let isBlank (g : Glyph) : Bool := isSeparator g && Sh.usualSeparators.contains g.byte
    let field := line.takeWhile (!isSeparator ·)
    let rest := (line.drop field.length).dropWhile isBlank
    let rest := match rest with
      | g :: after => if isSeparator g then after.dropWhile isBlank else rest
      | [] => []
    bytesOf field :: shares separators more rest

/-- Reads a line into variables. -/
def read : Builtin := fun arguments => do
  let (options, names) := splitValuedOptions (ascii "p") arguments
  if names.isEmpty then return (← Sh.refuse (ascii "arg count"))
  let (line, ended) ← Sh.run (readLine (options.any (·.1 == 114)) Run.patience [])
  let separators ← Sh.separators
  let isBlank (g : Glyph) : Bool :=
    !g.quoted && separators.contains g.byte && Sh.usualSeparators.contains g.byte
  let values := shares separators names.length (line.reverse.dropWhile isBlank)
  for (name, value) in names.zip values do
    if !isName name then Sh.stop (name ++ ascii ": bad variable name")
    Sh.assign name value false
  return if ended then 0 else 1

/-! ## Signals and processes -/

/-- Sends a signal to processes. -/
def kill : Builtin := fun arguments => do
  let usage : Sh Nat := Sh.refuse <| ascii
    "Usage: kill [-s sigspec | -signum | -sigspec] [pid | job]... or\nkill -l [exitstatus]"
  match arguments with
  | [] => usage
  | (45 :: word) :: rest =>
    match signalNumber? 1 word, word with
    | some signal, _ => send usage signal rest
    | none, [115] =>
      match rest with
      | [] => Sh.refuse (ascii "No arg for -s option")
      | name :: rest => named usage name rest
    | none, 115 :: name => named usage name rest
    | none, [45] => send usage 15 rest
    | none, [108] => list rest
    | none, b :: _ => Sh.refuse (ascii "Illegal option -" ++ [b])
    | none, [] => send usage 15 arguments
  | _ => send usage 15 arguments
where
  /-- Sends the signal of a name. -/
  named (usage : Sh Nat) (name : Bytes) (rest : List Bytes) : Sh Nat := do
    match signalNumber? 1 name with
    | some signal => send usage signal (if rest.head? = some (ascii "--") then rest.tail else rest)
    | none => Sh.refuse (ascii "invalid signal number or name: " ++ name)
  /-- Sends a signal. -/
  send (usage : Sh Nat) (signal : Nat) (pids : List Bytes) : Sh Nat := do
    if pids.isEmpty then return (← usage)
    pids.foldlM (fun code word => do
      let pid ← numberOf word
      if ← Sh.run (Run.kill pid signal) then return code
      Sh.complain (ascii "No such process\n")
      return 1) 0
  /-- Names signals. -/
  list (codes : List Bytes) : Sh Nat := do
    match codes with
    | [] => put 0 (unlines ((signalNames.drop 1).map ascii))
    | code :: _ =>
      let n ← numberOf code
      put 0 (signalName (if 128 < n then n - 128 else n) ++ [10])

/-- A text in single quotes. -/
def inQuotes (text : Bytes) : Bytes :=
  [39] ++ text.flatMap (fun b => if b = 39 then [39, 34, 39, 34, 39] else [b]) ++ [39]

/-- Sets what happens on a signal: nothing, an action, or what is usual. -/
def setAction (action : Option Bytes) (signal : Nat) : Sh Unit := do
  let others := (← get).actions.filter fun entry => entry.1 != signal
  modify fun state =>
    { state with actions := (action.elim [] fun action => [(signal, action)]) ++ others }
  if signal != 0 && !(← get).deaf.contains signal then
    Sh.run <| Run.modifyCaller fun caller =>
      let ignored := caller.ignored.filter (· != signal)
      let caught := caller.caught.filter (· != signal)
      match action with
      | none => { caller with ignored, caught }
      | some [] => { caller with ignored := signal :: ignored, caught }
      | some _ => { caller with ignored, caught := signal :: caught }

/-- Sets the actions for signals, or shows them. -/
def trap : Builtin := fun arguments => do
  match if arguments.head? = some (ascii "--") then arguments.tail else arguments with
  | [] =>
    let actions := (← get).actions.mergeSort fun a b => a.1 ≤ b.1
    put 0 <| actions.flatMap fun (signal, action) =>
      ascii "trap -- " ++ inQuotes action ++ [32] ++ signalName signal ++ [10]
  | first :: rest =>
    let isSignal := rest.isEmpty || (number? first).isSome
    let action := if isSignal || first = [45] then none else some first
    let signals := if isSignal then first :: rest else rest
    go action signals
where
  /-- Sets an action for some signals. -/
  go (action : Option Bytes) : List Bytes → Sh Nat
    | [] => return 0
    | word :: rest => do
      match signalNumber? 0 word with
      | some signal =>
        setAction action signal
        go action rest
      | none =>
        Sh.run (Run.complain (ascii "trap: " ++ word ++ ascii ": bad trap"))
        return 1

/-- Waits for a process: its exit code. Some ends by signals are told of. -/
def await (pid : Pid) : Sh Nat := do
  let status := Status.ofWord (← Sh.run (Run.wait pid))
  modify fun state => { state with background := state.background.filter (· != pid) }
  if let .signaled signal := status then
    if let some text := endedBy? signal then Sh.run (Run.complain text)
  return status.code

/-- Waits for processes. -/
def wait : Builtin := fun arguments => do
  match arguments with
  | [] =>
    for pid in (← get).background.reverse do
      let _ ← await pid
    return 0
  | words => words.foldlM (fun _ word => do await (← numberOf word)) 0

/-! ## Directories -/

/-- The names that lead from the root to a directory. -/
def pathTo (files : FileTree) : Nat → Nat → List Bytes
  | 0, _ => []
  | fuel + 1, id =>
    match files.get? id with
    | some (.directory _ parent _) =>
      if id = FileTree.root then []
      else
        match files.get? parent with
        | some (.directory _ _ entries) =>
          pathTo files fuel parent ++
            ((entries.find? fun entry => entry.2 = id).map Prod.fst).toList
        | _ => []
    | _ => []

/-- The path of the current directory. -/
def currentPath : Sh Bytes := do
  let files ← Sh.run Run.files
  let names := pathTo files files.nodes.size files.current
  return if names.isEmpty then [FileTree.slash] else names.flatMap fun name => FileTree.slash :: name

/-- Changes the directory from which paths start. -/
def cd : Builtin := fun arguments => do
  let wanted := arguments.filter fun a => !([ascii "-P", ascii "-L", ascii "--"].contains a)
  let path ← match wanted with
    | [] => pure ((← Sh.lookup? (ascii "HOME")).getD [])
    | path :: _ =>
      if path = [45] then pure ((← Sh.lookup? (ascii "OLDPWD")).getD []) else pure path
  if path.isEmpty then return 0
  let files ← Sh.run Run.files
  match files.lookup path with
  | .error _ => Sh.refuse (ascii "can't cd to " ++ path)
  | .ok id =>
    if files.isDirectory id && files.allows id .execute then
      let before ← currentPath
      Sh.run (Run.setFiles { files with current := id })
      Sh.assign (ascii "OLDPWD") before false
      Sh.assign (ascii "PWD") (← currentPath) false
      if wanted.head? = some [45] then put 0 ((← currentPath) ++ [10]) else return 0
    else Sh.refuse (ascii "can't cd to " ++ path)

/-- Shows the path of the current directory. -/
def pwd : Builtin := fun _ => do
  put 0 ((← currentPath) ++ [10])

/-- The rights that a mask leaves to users, as letters. -/
def rightsLeft (mask : Nat) : Bytes :=
  let letters (shift : Nat) : String :=
    let has (bit : Nat) (letter : String) : String := if mask >>> shift &&& bit = 0 then letter else ""
    has 4 "r" ++ has 2 "w" ++ has 1 "x"
  ascii ("u=" ++ letters 6 ++ ",g=" ++ letters 3 ++ ",o=" ++ letters 0)

/-- Shows or sets the mask for the modes of new files. -/
def umask : Builtin := fun arguments => do
  let files ← Sh.run Run.files
  match arguments with
  | [] =>
    let digits := Utility.inBase 8 files.mask
    put 0 (List.replicate (4 - digits.length) 48 ++ digits ++ [10])
  | argument :: _ =>
    if argument = ascii "-S" then put 0 (rightsLeft files.mask ++ [10])
    else
      match leadingDigits 8 argument.length argument with
      | (mask, _, []) =>
        Sh.run (Run.setFiles { files with mask := mask % 0o1000 })
        return 0
      | _ => Sh.refuse (ascii "Illegal number: " ++ argument)

/-! ## The builtins by name -/

/-- The special builtins. -/
def specials : List (String × Builtin) :=
  [(":", fun _ => pure 0), ("break", leaveLoops .breaking), ("continue", leaveLoops .continuing),
    ("exit", exit), ("export", mark fun v => { v with exported := true }), ("local", keep),
    ("readonly", mark fun v => { v with fixed := true }), ("return", leaveFunction), ("set", setOptions),
    ("shift", shift), ("times", fun _ => pure 0), ("trap", trap), ("unset", unset)]

/-- The regular builtins. -/
def regulars : List (String × Builtin) :=
  [("[", bracket), ("cd", cd), ("echo", echo), ("false", fun _ => pure 1), ("hash", fun _ => pure 0),
    ("jobs", fun _ => pure 0), ("kill", kill), ("printf", printf), ("pwd", pwd), ("read", read),
    ("test", answer), ("true", fun _ => pure 0), ("ulimit", fun _ => pure 0), ("umask", umask),
    ("wait", wait)]

/-- The builtin of a name among some. -/
def find? (builtins : List (String × Builtin)) (name : Bytes) : Option Builtin :=
  (builtins.find? fun entry => ascii entry.1 = name).map Prod.snd

end Builtin

end LineShell.Script
