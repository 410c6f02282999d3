import AppHost.Host.State
/-! Launching programs and running their tasks. A launch that fails leaves no record and no
memory behind; a task that has run drops its record before its exit hook is called. -/
namespace AppHost

open Memory

namespace Host

variable {σ γ : Type} [Allocator σ]

def exitReason (exitCode : Option Int32) (result : Int32) : ExitReason :=
  match exitCode with
  | some code => .exited code
  | none => .returned result

def noteUnresolved (h : Host σ γ) : LaunchError → Host σ γ
  | .missingLibrary name => h.note (.libraryMissing name)
  | .dependencyCycle name => h.note (.cycleFound name)
  | _ => h

def taskName (pid : Pid) : String := "badge-" ++ toString pid.toNat

def contextOf (h : Host σ γ) (arena : Arena (Audited σ)) (entry : Word) : Context (Audited σ) :=
  Context.enter
    { arena
      unit := if h.spawner.shared then h.unit else .idle
      others := h.others
      resumable := true
      exitCode := none
      entry
      granted := h.granted
      journal := [] }

def leave (h : Host σ γ) (id : Nat) (c : Context (Audited σ)) : Host σ γ :=
  let h := h.modifySpace id fun s => { s with linkage := { s.linkage with arena := c.arena } }
  { h with
    unit := if h.spawner.shared then c.unit.deactivate else h.unit
    granted := c.granted }.noteAll (c.journal.map .context)

def runTask (h : Host σ γ) (t : Task) : Host σ γ :=
  match h.linkage? t.space with
  | none => h
  | some l =>
    let program := h.programs t.pid
    let c := h.contextOf l.arena t.entry
    let h := h.note (.resumePointAsked t.pid c.unit.active?)
    let c := { c with arena := c.arena.setResume h.resumePoint }
    let h := h.note
      (.executing t.pid c.unit.active? c.arena.resume t.entry t.argv t.envp)
    let c := c.run program.actions
    let reason := exitReason c.exitCode program.result
    let h := h.leave t.space c
    let h := (h.release t.space .context).release t.space .linkage
    let h := (h.removeRecord t.pid).note (.ended t.pid reason.code)
    if t.hook then h.note (.hookRan t.pid reason h.live) else h

def dropTask (h : Host σ γ) (t : Task) : Host σ γ :=
  (h.release t.space .context).release t.space .linkage

def submit (h : Host σ γ) (t : Task) : Except LaunchError Unit × Host σ γ :=
  let h := h.note (.taskRequested (taskName t.pid) h.settings.taskStackBytes)
  match h.spawner.startWith h.settings.taskStackBytes with
  | .immediately => (.ok (), h.runTask t)
  | .later => (.ok (), { h with pending := h.pending ++ [t] })
  | .refused reason =>
    (.error (.taskRefused reason), (h.dropTask t).note (.taskRefused t.pid reason))

/-- Turns a linked program into a task. Its linkage goes with the task. -/
def spawn (h : Host σ γ) (id : Nat) (pid : Pid) (hook : Bool) :
    Except LaunchError Unit × Host σ γ :=
  match (h.linkage? id).bind (·.entry) with
  | none => (.error .notReady, h.release id .linkage)
  | some entry =>
    let h := h.modifySpace id fun s => { s with linkage := s.linkage.collect }
    let h := (h.hold id .context).note (.starting pid entry)
    h.submit ⟨id, pid, entry, [h.settings.argv0], h.settings.envp, hook⟩

def takePending? (h : Host σ γ) (i : Nat) : Option (Task × Host σ γ) :=
  (h.pending[i]?).map fun t => (t, { h with pending := h.pending.eraseIdx i })

variable [CodeGenerator γ]

def exportInto (h : Host σ γ) (id : Nat) : Except ExportError Nat × Host σ γ :=
  let table := ((h.linkage? id).map (·.symbols)).getD .empty
  match h.onCapabilities (·.exportWrapped table) with
  | (.error e, h) => (.error e, h)
  | (.ok symbols, h) =>
    (.ok symbols.size,
      h.modifySpace id fun s => { s with linkage := { s.linkage with symbols } })

def prepare (h : Host σ γ) (id : Nat) (name : String) (handle : Handle) :
    Except LaunchError Unit × Host σ γ :=
  match h.onLinkage id (·.loadExecutable name handle) with
  | none => (.error .notReady, h)
  | some (.error e, h) => (.error (.cannotLoad name e), h)
  | some (.ok (), h) =>
    match h.onLinkage id (·.resolve h.settings.builtinLibraries h.libraries h.files) with
    | none => (.error .notReady, h)
    | some (.error e, h) => (.error e, h.noteUnresolved e)
    | some (.ok (), h) =>
      match h.exportInto id with
      | (.error e, h) => (.error (.noCatalog e), h)
      | (.ok _, h) =>
        match h.onLinkage id (·.link) with
        | none => (.error .notReady, h)
        | some (.error e, h) => (.error (.cannotLink e), h)
        | some (.ok (), h) => (.ok (), h)

def startHandle (h : Host σ γ) (name : String) (handle : Handle) (hook : Bool) :
    Except LaunchError Pid × Host σ γ :=
  let pid := h.processes.next
  let (id, h) := h.newLinkage
  let h := h.addRecord pid name id
  let fail := fun (h : Host σ γ) (e : LaunchError) =>
    (Except.error e, (h.removeRecord pid).note (.startFailed name e))
  match h.prepare id name handle with
  | (.error e, h) => fail (h.release id .linkage) e
  | (.ok (), h) =>
    match h.spawn id pid hook with
    | (.error e, h) => fail h e
    | (.ok (), h) => (.ok pid, h)

/-- Launches the executable at a path. It is known by the last piece of the path. -/
def start (h : Host σ γ) (path : String) (hook : Bool) : Except LaunchError Pid × Host σ γ :=
  match h.files.openPath path with
  | .error e => (.error (.cannotOpen path e), h.note (.cannotOpen path e))
  | .ok handle => h.startHandle (Path.lastPiece path) handle hook

def startLinked (h : Host σ γ) (id : Nat) (hook : Bool) : Except LaunchError Pid × Host σ γ :=
  match h.linkage? id with
  | none => (.error .notReady, h)
  | some l =>
    let pid := l.arena.pid
    if !l.isProgram then (.error .notReady, (h.note (.notReady pid)).release id .linkage)
    else
      let h := h.addRecord pid (l.filenames.head?.getD "a.out") id
      match h.spawn id pid hook with
      | (.error e, h) => (.error e, h.removeRecord pid)
      | (.ok (), h) => (.ok pid, h)

end Host

end AppHost
