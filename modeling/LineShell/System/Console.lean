import LineShell.Kernel.Host
import LineShell.Session.Interpreter
import LineShell.System.Catalogue
import LineShell.System.Log

/-!
# Running the interpreter in a world held in memory

`Kernel.inMemory` carries out the interpreter's system calls, `Machine.worldHost` gives a session what it
needs, and `Machine.console` a whole run.
-/

namespace LineShell

/-- The signals that programs ignore when they are started: a pipe without a reader is only an error. -/
def ignoredAtStart : List Nat := [13]

/-- The mode of a file that a redirection creates, before the mask (`CREATE_MODE`). -/
def redirectionMode : Nat := 0o644

/-- The system calls of the interpreter. -/
def Kernel.inMemory : Kernel World where
  openFile p direction path w :=
    let opened := w.system.openFile p.table direction (Utf8.encode path) redirectionMode
    opened.map fun (handle, system) => (handle, { w with system })
  newPipe w :=
    let (id, system) := w.system.newPipe
    .ok (id, { w with system })
  write handle bytes w := { w with system := w.system.write handle bytes }
  fault handle bytes w :=
    match handle with
    | .pipe .. => none
    | .file file =>
      match w.system.writeFile file bytes with
      | (.error errno, _) => some (0, errno)
      | (.ok (), _) => none
  start words p w :=
    (load w.system.files searchPath (words.map Utf8.encode)).map fun image =>
      let { current, mask, .. } := w.system.files
      let caller : Caller := ⟨p, current, mask, w.environment, ignoredAtStart, [], [], false⟩
      { w.start catalogue true caller image w.clock with clock := w.clock + World.forkTime }
  await fatal p w := w.await catalogue fatal p

/-- What a descriptor of a process brings up to its end, for a process that does not wait. -/
def World.readAll (w : World) (p : Process) (fd : Nat) : Except Errno Bytes × World :=
  match p.table.get? fd with
  | none => (.error .badDescriptor, w)
  | some slot => go slot.handle blockBound [] w
where
  /-- The number of blocks that are read at most. -/
  blockBound : Nat := 65536
  /-- Reads at most so many blocks; those read come last one first. -/
  go (h : Handle) : Nat → List Bytes → World → Except Errno Bytes × World
    | 0, blocks, w => (.ok blocks.reverse.flatten, w)
    | more + 1, blocks, w =>
      match w.system.read (w.isHeld p) h pipeRoom with
      | none | some (.ok [], _) => (.ok blocks.reverse.flatten, w)
      | some (.error errno, system) => (.error errno, { w with system })
      | some (.ok block, system) => go h more (block :: blocks) { w with system }

/-- The host that carries commands out. -/
def Machine.worldHost : Host (Machine World) :=
  Machine.host Kernel.inMemory (commandBody Kernel.inMemory)

namespace Machine

/-- What a descriptor of the interpreter leads to. -/
def handle? (m : Machine World) (fd : Nat) : Option Handle :=
  (m.process.table.get? fd).map Slot.handle

/-- The machine with another system. -/
def withSystem (m : Machine World) (system : System) : Machine World :=
  { m with world := { m.world with system } }

/-- A descriptor of the interpreter leads to a terminal. -/
def leadsToTerminal (m : Machine World) (fd : Nat) : Bool :=
  match m.handle? fd with
  | some (.file id) => m.world.system.opened[id]? == some .terminal
  | _ => false

/-- What a whole run needs; `log` is the filter of the log. -/
def console (log : Log.Filter) : Console (Machine World) where
  toHost := worldHost
  isTerminal m := m.leadsToTerminal 0
  writeThrough text m := m.write Kernel.inMemory 1 (Utf8.encode text)
  openScript path m :=
    (m.process.openFile Kernel.inMemory .input path m.world).map fun (fd, process, world) =>
      (fd, { m with process, world })
  readFile path m :=
    if '\x00' ∈ path then none
    else
      let files := m.world.system.files
      match files.openForReading (Utf8.encode path) with
      | .ok id => (m.world.system.bytesFrom id 0).toOption
      | .error _ => none
  arrivals fd m := ((m.handle? fd).map m.world.system.arrivals).getD [.failed .badDescriptor]
  advance fd count m :=
    match m.handle? fd with
    | some handle => m.withSystem (m.world.system.advance handle count)
    | none => m
  warn message m :=
    if log.shows message then m.write Kernel.inMemory 2 (Utf8.encode (Log.warningLine message))
    else m

end Machine

end LineShell
