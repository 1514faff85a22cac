import LineShell.Script.Builtin
import LineShell.Script.Parse
import LineShell.Script.Redirect

/-!
# Running scripts

`Statement.run` carries a statement out within the process of a script. Programs, subshells, the stages
of a pipeline and what stands in the background are processes of their own.

* Nothing but loops need come to an end, so every function here has an argument that bounds the depth of
  its calls; where it is used up, the script is cut short.
* After each statement the actions are carried out that signals called for in the meantime.
* A statement whose failure is `tested` is no reason to end a script that ends at failures. Where a
  program is the `last` thing that its process does, it takes the process over.
-/

namespace LineShell.Script

/-- How a statement is carried out. -/
structure Manner where
  /-- Something depends on whether it fails. -/
  tested : Bool
  /-- Its process does nothing after it. -/
  last : Bool

/-- As a statement among others. -/
def Manner.usual : Manner := ⟨false, false⟩

/-- As a statement on which something depends. -/
def Manner.condition : Manner := ⟨true, false⟩

/-- The manner, but with something to be done afterwards. -/
def Manner.inside (manner : Manner) : Manner := { manner with last := false }

/-! ## Processes -/

/-- The exit code of a piece that may have been left. -/
def codeOf (body : Sh Unit) : Sh Nat := do
  tryCatch (do body; return (← get).status) fun
    | .ending code => return code
    | .fault => return Sh.faultCode
    | _ => return (← get).status

/-- The exit code of a process that does something; the action for its end comes last. -/
def conclude (runAction : Bytes → Sh Unit) (body : Sh Unit) : Sh Nat := do
  let code ← codeOf body
  match (← get).actions.lookup 0 with
  | none | some [] => return code
  | some action =>
    modify fun state =>
      { state with actions := state.actions.filter fun entry => entry.1 != 0, status := code }
    tryCatch (do runAction action; return code) fun
      | .ending code => return code
      | _ => return code

/-- The program of a process that starts in a state. -/
def programOf (body : Sh Nat) (state : State) : Program :=
  let piece : Run Nat := do
    let (result, _) ← StateT.run (ExceptT.run body) state
    return result.toOption.getD Sh.faultCode
  piece.toProgram

/-- The state in which a copy of the process starts. -/
def State.forked (state : State) : State :=
  { state with
    actions := state.actions.filter fun entry => entry.2.isEmpty
    background := []
    loops := 0 }

/-- Starts a copy of the process that does something of its own. -/
def forkOff (body : Sh Nat) : Sh Pid := do
  let state ← get
  Sh.run (Run.fork (programOf body state.forked))

/-- Why a program could not be started, and the exit code for that. -/
def startFault (errno : Errno) : Bytes × Nat :=
  if errno = .noEntry || errno = .notDirectory then (ascii "not found", 127)
  else if errno = .nameTooLong || errno = .tooManyLinks then (errorText errno, 127)
  else (errorText errno, 126)

/-- Starts a program in the place of the process; comes back only where that is refused. -/
def becomeProgram (words : List Bytes) : Sh Nat := do
  let environment ← Sh.exports
  Sh.run (Run.modifyCaller fun caller => { caller with environment })
  let errno ← Sh.run (Run.exec (← Sh.searchDirectories) words)
  let (text, code) := startFault errno
  Sh.complain (words.headD [] ++ ascii ": " ++ text)
  return code

/-- Runs a program. One that is found nowhere is no reason to start a process. -/
def runProgram (manner : Manner) (words : List Bytes) : Sh Unit := do
  let name := words.headD []
  let files ← Sh.run Run.files
  let missing := match load files (← Sh.searchDirectories) words with
    | .error errno => if name.contains FileTree.slash then none else some errno
    | .ok _ => none
  match missing with
  | some errno =>
    Sh.complain (name ++ ascii ": " ++ (startFault errno).1)
    Sh.setStatus 127
  | none =>
    if manner.last && (← get).actions.all (·.2.isEmpty) then
      throw (.ending (← becomeProgram words))
    else Sh.setStatus (← Builtin.await (← forkOff (becomeProgram words)))

/-! ## Settings -/

/-- Sets variables in order: their names and values. -/
def applySettings (substitute : Source → Sh Bytes) (exported : Bool) (settings : List (Bytes × Word)) :
    Sh (List (Bytes × Bytes)) :=
  settings.mapM fun (name, word) => do
    let value ← expandWhole substitute word
    Sh.assign name value exported
    return (name, value)

/-- Puts variables back when something is done. -/
def restoring {α : Type} (names : List Bytes) (body : Sh α) : Sh α := do
  let bindings := (← get).bindings
  let before := names.map fun name => (name, bindings.lookup name)
  Sh.ensuring body (before.forM fun (name, value) => Sh.setVariable name value)

/-- Shows a command before it is carried out. -/
def showCommand (settings : List (Bytes × Bytes)) (fields : List Bytes) : Sh Unit := do
  if (← get).options.trace then
    let words := settings.map (fun (name, value) => name ++ [61] ++ value) ++ fields
    Sh.run (Run.complain (ascii "+ " ++ Utility.joinWords words))

/-! ## Commands -/

/-- What a name stands for as a command. -/
inductive Meaning where
  | special (builtin : Builtin)
  | function (body : Statement)
  | regular (builtin : Builtin)
  | program

/-- What a name stands for; functions may be left out of it. -/
def meaningOf (functions : Bool) (name : Bytes) : Sh Meaning := do
  match Builtin.find? Builtin.specials name with
  | some builtin => return .special builtin
  | none =>
    let named := (← get).functions.filter fun entry => functions && entry.1 = name
    match named.head? with
    | some (_, body) => return .function body
    | none =>
      match Builtin.find? Builtin.regulars name with
      | some builtin => return .regular builtin
      | none => return .program

/-- Names that stand for special commands which carry statements out. -/
def interpretive : List Bytes := [ascii "eval", ascii "exec", ascii "."]

/-- Does something as a builtin, which complaints then name. -/
def asBuiltin {α : Type} (name : Bytes) (body : Sh α) : Sh α := do
  let before := (← get).builtin
  modify fun state => { state with builtin := some name }
  Sh.ensuring body (modify fun state => { state with builtin := before })

/-- Carries a regular builtin out; a fault in it is a failure. -/
def runRegular (name : Bytes) (builtin : Builtin) (arguments : List Bytes) : Sh Unit := do
  let code ← tryCatch (asBuiltin name (builtin arguments)) fun
    | .fault => return Sh.faultCode
    | leave => throw leave
  Sh.setStatus code

/-- The path of a program, if it is found. -/
def programPath? (name : Bytes) : Sh (Option Bytes) := do
  let files ← Sh.run Run.files
  let directories ← Sh.searchDirectories
  let paths := if name.contains FileTree.slash then [name]
    else directories.map fun directory => directory ++ FileTree.slash :: name
  return paths.find? fun path => (files.lookup path).toOption.any (files.allows · .execute)

/-- Tells what a name stands for as a command, in words if that is asked for. -/
def describe (inWords : Bool) (name : Bytes) : Sh Nat := do
  asBuiltin (ascii "command") do
    let tell (bytes : Bytes) (words : String) : Sh Nat :=
      Builtin.put 0 (if inWords then name ++ ascii words ++ [10] else bytes ++ [10])
    if Reader.reserved.contains name then tell name " is a shell keyword"
    else
      match ← meaningOf true name with
      | .special _ => tell name " is a special shell builtin"
      | .regular _ => tell name " is a shell builtin"
      | .function _ => tell name " is a shell function"
      | .program =>
        if interpretive.contains name then tell name " is a special shell builtin"
        else if [ascii "command", ascii "type"].contains name then tell name " is a shell builtin"
        else
          match ← programPath? name with
          | some path =>
            Builtin.put 0 ((if inWords then name ++ ascii " is " ++ path else path) ++ [10])
          | none =>
            if inWords then
              let _ ← Builtin.put 0 (name ++ ascii ": not found\n")
            return 127

/-- Goes on after a loop's round was left: whether the loop goes on. -/
def afterRound (body : Sh Unit) : Sh Bool := do
  tryCatch (do body; return true) fun
    | .breaking levels => if levels ≤ 1 then return false else throw (.breaking (levels - 1))
    | .continuing levels => if levels ≤ 1 then return true else throw (.continuing (levels - 1))
    | leave => throw leave

/-- Does something within a loop. -/
def inLoop (body : Sh Unit) : Sh Unit := do
  modify fun state => { state with loops := state.loops + 1 }
  Sh.ensuring body (modify fun state => { state with loops := state.loops - 1 })

/-- Ends the script after a failure, if it is to end then. -/
def endAtFailure (manner : Manner) : Sh Unit := do
  let state ← get
  if state.options.errorExit && !manner.tested && state.status != 0 then
    throw (.ending state.status)

/-- The signals that arrived and were not yet dealt with. -/
def takeArrived : Sh (List Nat) := do
  match (← Sh.run Run.caller).arrived with
  | [] => return []
  | arrived =>
    Sh.run (Run.modifyCaller fun caller => { caller with arrived := caller.arrived.drop arrived.length })
    return arrived

/-- Puts a descriptor in the place of another one, for good. -/
def moveDescriptor (source target : Nat) : Sh Unit :=
  if source = target then return ()
  else
    Sh.run <| Run.modifyTable fun table =>
      match table.get? source with
      | some slot => (table.put target { slot with closeOnExec := false }).close source
      | none => table

/-- Opens a pipe: the descriptors of its ends. -/
def openPipe : Sh (Nat × Nat) := do
  let id ← Sh.run (modifyGet System.newPipe)
  let reading := freeFrom (← Sh.table) 0
  Sh.run (Run.modifyTable fun table => table.put reading ⟨.pipe id .read, true⟩)
  let writing := freeFrom (← Sh.table) 0
  Sh.run (Run.modifyTable fun table => table.put writing ⟨.pipe id .write, true⟩)
  return (reading, writing)

/-- The path of the device without content. -/
def nullPath : Bytes := ascii "/dev/null"

/-- Cuts a process off from the keyboard. -/
def detach : Sh Unit := do
  Sh.run <| Run.modifyCaller fun caller => { caller with ignored := 2 :: 3 :: caller.ignored }
  Sh.run (Run.close 0)
  let _ ← Sh.run (Run.openFile .input nullPath)

/-- Nothing but blanks is left of a text. -/
def isSpent (r : Remaining) : Bool :=
  r.text.all fun b => b = 32 || b = 9 || b = 10

/-- How long a script takes for one command, so that no loop takes no time. -/
def commandTime : Nat := 1

mutual

/-- Carries a statement out. -/
def Statement.run : Nat → Manner → Statement → Sh Unit
  | 0, _, _ => throw (.ending Sh.faultCode)
  | fuel + 1, manner, statement => do
    match statement with
    | .nothing => return ()
    | .simple line settings words redirections =>
      runSimple fuel manner line settings words redirections
      runDue fuel
      endAtFailure manner
    | .pipeline stages =>
      let pids ← startStages fuel none stages
      let codes ← pids.mapM Builtin.await
      Sh.setStatus (codes.getLast?.getD 0)
      runDue fuel
      endAtFailure manner
    | .negation body =>
      body.run fuel .condition
      modify fun state => { state with status := if state.status = 0 then 1 else 0 }
    | .background body =>
      let pid ← forkOff (conclude (runText fuel .usual) do
        detach
        body.run fuel ⟨false, true⟩)
      modify fun state => { state with background := pid :: state.background, status := 0 }
    | .sequence first second =>
      first.run fuel manner.inside
      second.run fuel manner
    | .conjunction first second =>
      first.run fuel .condition
      if (← get).status = 0 then second.run fuel manner
    | .disjunction first second =>
      first.run fuel .condition
      if (← get).status != 0 then second.run fuel manner
    | .choice test consequence alternative =>
      test.run fuel .condition
      if (← get).status = 0 then consequence.run fuel manner
      else
        Sh.setStatus 0
        alternative.run fuel manner
    | .loop expected test body =>
      inLoop (runLoop fuel manner.inside expected test body 0)
    | .each name words body =>
      let values ← match words with
        | some words => expandAll (printed fuel) words
        | none => pure (← get).arguments
      Sh.setStatus 0
      inLoop (runEach fuel manner.inside name values body)
    | .select subject arms =>
      let text ← expandWhole (printed fuel) subject
      Sh.setStatus 0
      runArms fuel manner text arms
    | .define name body =>
      modify fun state =>
        let others := state.functions.filter fun entry => entry.1 != name
        { state with functions := (name, body) :: others, status := 0 }
    | .group line apart body redirections =>
      if apart then
        modify fun state => { state with line }
        let pid ← forkOff (conclude (runText fuel .usual) do
          let _ ← redirect (printed fuel) [] redirections
          body.run fuel ⟨manner.tested, true⟩)
        Sh.setStatus (← Builtin.await pid)
        runDue fuel
        endAtFailure manner
      else if redirections.isEmpty then body.run fuel manner
      else
        modify fun state => { state with line }
        let kept ← tryCatch (some <$> redirect (printed fuel) [] redirections) fun
          | .fault => return none
          | leave => throw leave
        match kept with
        | none => Sh.setStatus Sh.faultCode
        | some kept => Sh.ensuring (body.run fuel manner.inside) (putBack kept)

/-- Carries a simple command out. -/
def runSimple : Nat → Manner → Nat → List (Bytes × Word) → List Word → List Redirection → Sh Unit
  | 0, _, _, _, _, _ => throw (.ending Sh.faultCode)
  | fuel + 1, manner, line, settings, words, redirections => do
    modify fun state => { state with line, inner := 0 }
    let fields ← expandAll (printed fuel) words
    Sh.run (Run.sleep commandTime)
    runFields fuel manner true settings fields redirections

/-- Carries a command out of which the words are expanded. -/
def runFields : Nat → Manner → Bool → List (Bytes × Word) → List Bytes → List Redirection → Sh Unit
  | 0, _, _, _, _, _ => throw (.ending Sh.faultCode)
  | fuel + 1, manner, functions, settings, fields, redirections => do
    let name := fields.headD []
    let arguments := fields.tail
    let meaning ← meaningOf functions name
    let isSpecial := !fields.isEmpty && (meaning matches .special _ || interpretive.contains name)
    let kept ← tryCatch (some <$> redirect (printed fuel) [] redirections) fun
      | .fault => if isSpecial then throw .fault else return none
      | leave => throw leave
    match kept with
    | none => Sh.setStatus Sh.faultCode
    | some kept =>
      let lasting := isSpecial || fields.isEmpty
      let body : Sh Unit := do
        let settings ← applySettings (printed fuel) (!lasting || name = ascii "exec") settings
        showCommand settings fields
        if fields.isEmpty then modify fun state => { state with status := state.inner }
        else if name = ascii "eval" then
          Sh.setStatus 0
          asBuiltin name (runText fuel ⟨manner.tested, false⟩ (Utility.joinWords arguments))
        else if name = ascii "." then runFile fuel arguments
        else if name = ascii "exec" then
          if arguments.isEmpty then Sh.setStatus 0
          else throw (.ending (← asBuiltin name (becomeProgram arguments)))
        else if name = ascii "command" then
          match arguments with
          | [] => Sh.setStatus 0
          | first :: rest =>
            if first = ascii "-v" then Sh.setStatus (← describe false (rest.headD []))
            else if first = ascii "-V" then Sh.setStatus (← describe true (rest.headD []))
            else if first = ascii "-p" then runFields fuel manner.inside false [] rest []
            else runFields fuel manner.inside false [] arguments []
        else if name = ascii "type" then
          Sh.setStatus 0
          arguments.forM fun argument => do
            let code ← describe true argument
            if code != 0 then Sh.setStatus code
        else
          match meaning with
          | .special builtin => Sh.setStatus (← asBuiltin name (builtin arguments))
          | .function body => runFunction fuel manner.inside body arguments
          | .regular builtin => runRegular name builtin arguments
          | .program => runProgram manner fields
      let body := if lasting then body else restoring (settings.map Prod.fst) body
      if name = ascii "exec" then Sh.ensuring body (letGo kept)
      else Sh.ensuring body (putBack kept)

/-- Carries a function out. -/
def runFunction : Nat → Manner → Statement → List Bytes → Sh Unit
  | 0, _, _, _ => throw (.ending Sh.faultCode)
  | fuel + 1, manner, body, arguments => do
    let before ← get
    set { before with arguments, loops := 0, locals := [] :: before.locals }
    let guarded : Sh Unit := tryCatch (body.run fuel manner) fun
      | .returning => return ()
      | leave => throw leave
    Sh.ensuring guarded do
      ((← get).locals.headD []).forM fun (name, value) => Sh.setVariable name value
      modify fun state =>
        { state with arguments := before.arguments, loops := before.loops, locals := before.locals }

/-- Runs a script within this one. -/
def runFile : Nat → List Bytes → Sh Unit
  | 0, _ => throw (.ending Sh.faultCode)
  | fuel + 1, arguments => do
    match arguments with
    | [] => Sh.setStatus 0
    | name :: _ =>
      let path ← if name.contains FileTree.slash then pure name
        else
          match ← programPath? name with
          | some path => pure path
          | none => asBuiltin (ascii ".") (Sh.stop (name ++ ascii ": not found"))
      let fd ← asBuiltin (ascii ".") (openAt .input path)
      let place := freeFrom (← Sh.table) keptFrom
      moveDescriptor fd place
      let guarded : Sh Unit := tryCatch (runSource fuel (some place) ⟨1, [], 0⟩) fun
        | .returning => return ()
        | leave => throw leave
      Sh.setStatus 0
      Sh.ensuring (asBuiltin path guarded) (Sh.run (Run.close place))

/-- Repeats a body as long as the test comes out as expected; `status` is that of the last round. -/
def runLoop : Nat → Manner → Bool → Statement → Statement → Nat → Sh Unit
  | 0, _, _, _, _, _ => throw (.ending Sh.faultCode)
  | fuel + 1, manner, expected, test, body, status => do
    let goOn ← afterRound (test.run fuel .condition)
    if !goOn then Sh.setStatus 0
    else if ((← get).status == 0) == expected then
      if ← afterRound (body.run fuel manner) then
        runLoop fuel manner expected test body (← get).status
    else Sh.setStatus status

/-- Repeats a body for each of some values of a variable. -/
def runEach : Nat → Manner → Bytes → List Bytes → Statement → Sh Unit
  | 0, _, _, _, _ => throw (.ending Sh.faultCode)
  | _, _, _, [], _ => return ()
  | fuel + 1, manner, name, value :: rest, body => do
    Sh.assign name value false
    if ← afterRound (body.run fuel manner) then runEach fuel manner name rest body

/-- Carries out the first body of which a pattern fits a text. -/
def runArms : Nat → Manner → Bytes → List (List Word × Statement) → Sh Unit
  | 0, _, _, _ => throw (.ending Sh.faultCode)
  | _, _, _, [] => return ()
  | fuel + 1, manner, text, (patterns, body) :: rest => do
    let fitting ← patterns.anyM fun word => do
      return fits (pattern (← expandGlyphs (printed fuel) word)) text
    if fitting then body.run fuel manner else runArms fuel manner text rest

/-- Starts the stages of a pipeline, the first of which reads from a descriptor. -/
def startStages : Nat → Option Nat → List Statement → Sh (List Pid)
  | 0, _, _ => throw (.ending Sh.faultCode)
  | _, _, [] => return []
  | fuel + 1, input, stage :: rest => do
    let pipe ← if rest.isEmpty then pure none else some <$> openPipe
    let pid ← forkOff (conclude (runText fuel .usual) do
      if let some (reading, _) := pipe then Sh.run (Run.close reading)
      if let some input := input then moveDescriptor input 0
      if let some (_, writing) := pipe then moveDescriptor writing 1
      stage.run fuel ⟨false, true⟩)
    if let some input := input then Sh.run (Run.close input)
    if let some (_, writing) := pipe then Sh.run (Run.close writing)
    return pid :: (← startStages fuel (pipe.map Prod.fst) rest)

/-- What a script prints. -/
def printed : Nat → Source → Sh Bytes
  | 0, _ => throw (.ending Sh.faultCode)
  | fuel + 1, script => do
    let (reading, writing) ← openPipe
    let pid ← forkOff (conclude (runText fuel .usual) do
      Sh.run (Run.close reading)
      moveDescriptor writing 1
      runRest fuel ⟨false, true⟩ ⟨script.line, script.text, 0⟩)
    Sh.run (Run.close writing)
    let bytes ← Sh.run (Run.readAll reading)
    Sh.run (Run.close reading)
    let inner ← Builtin.await pid
    modify fun state => { state with inner }
    return bytes.toOption.getD []

/-- Carries out the actions that signals called for. -/
def runDue : Nat → Sh Unit
  | 0 => return ()
  | fuel + 1 => do
    let arrived ← takeArrived
    arrived.forM fun signal => do
      let state ← get
      match state.actions.lookup signal with
      | none | some [] => return ()
      | some action =>
        runText fuel .usual action
        Sh.setStatus state.status

/-- Runs a script that is given as a text. -/
def runText : Nat → Manner → Bytes → Sh Unit
  | 0, _, _ => throw (.ending Sh.faultCode)
  | fuel + 1, manner, script => runRest fuel manner ⟨1, script, 0⟩

/-- Runs what is left of a text, one complete line after another. -/
def runRest : Nat → Manner → Remaining → Sh Unit
  | 0, _, _ => throw (.ending Sh.faultCode)
  | fuel + 1, manner, r => do
    match nextStatement true r with
    | .incomplete | .finished => return ()
    | .fault line message =>
      modify fun state => { state with line }
      Sh.stop message
    | .statement body rest =>
      body.run fuel { manner with last := manner.last && isSpent rest }
      runRest fuel manner rest

/-- Runs what is left of a text and what else a descriptor brings, one complete line after another. -/
def runSource : Nat → Option Nat → Remaining → Sh Unit
  | 0, _, _ => throw (.ending Sh.faultCode)
  | fuel + 1, source, r => do
    match nextStatement source.isNone r, source with
    | .incomplete, some fd =>
      match ← Sh.run (Run.readSome fd Run.blockSize) with
      | .ok (b :: block) =>
        let text := r.text ++ (b :: block).filter (· != 0)
        runSource fuel source { r with text }
      | _ => runSource fuel none r
    | .incomplete, none | .finished, _ => return ()
    | .fault line message, _ =>
      modify fun state => { state with line }
      Sh.stop message
    | .statement body rest, _ =>
      body.run fuel .usual
      runSource fuel source rest

end

end LineShell.Script
