import PaciNet.Agent.Pacgate
import PaciNet.Core.Fsm.Document
import PaciNet.Lib.LossyUtf8
import PaciNet.Server.World

/-!
# The compiler run

An agent compiles the rules it is sent by running `pacgate` on a file in the directory for
temporary files: `validate`, then `lint`, then `compile`. The code is cut at its awaits and at what
it does to the state of the agent, which all its handlers share behind a lock.

A handler is dropped when whoever sent the request has gone. That happens at an await, and the
answer of each operation that is awaited says whether it did (`none`). What the code has on its
stack is then dropped with it, which releases a lock it holds but removes no file.
-/

set_option autoImplicit false

namespace PaciNet

/-- What a process that has ended leaves. -/
structure Output where
  success : Bool
  stdout : List UInt8
  stderr : List UInt8
  deriving DecidableEq

/-- `String::from_utf8_lossy(&output.stdout)`. -/
def Output.stdoutText (o : Output) : String := .ofList (Lib.LossyUtf8.fromUtf8Lossy o.stdout)

/-- `String::from_utf8_lossy(&output.stderr)`. -/
def Output.stderrText (o : Output) : String := .ofList (Lib.LossyUtf8.fromUtf8Lossy o.stderr)

/-! ## Operations -/

/-- The operations the handlers of an agent are cut into. A read lock is told from the others by
    its permit. -/
inductive AgentOp where
  | readLock
  | readUnlock (permit : Nat)
  | writeLock
  | writeUnlock
  | uuid
  | writeFile (path text : String)
  | removeFile (path : String)
  | pacgate (args : List String)
  | now
  | uptime
  | activePolicyHash
  | setActivePolicyHash (hash : String)
  | setActiveRulesYaml (rulesYaml : String)
  | setDeployedAt (time : DateTime)
  | deployed (req : DeployRulesRequest) (result : CompileResult) (time : DateTime)

/-- What an operation returns; for those that are awaited, `none` when the handler is dropped. -/
@[reducible] def AgentOp.Res : AgentOp → Type
  | readLock => Option Nat
  | writeLock => Option Unit
  | uuid => String
  | writeFile _ _ | removeFile _ => Option (Except String Unit)
  | pacgate _ => Option (Except String Output)
  | now => DateTime
  | uptime => Nat
  | activePolicyHash => Option String
  | readUnlock _ | writeUnlock | setActivePolicyHash _ | setActiveRulesYaml _ | setDeployedAt _
  | deployed _ _ _ => Unit

/-- A program of the agent. -/
abbrev AgentProc (α : Type) := Lib.Prog AgentOp AgentOp.Res α

/-- Perform one operation. -/
def agentOp (o : AgentOp) : AgentProc o.Res := Lib.Prog.perform o

/-- Why a function returned early: an error, or its handler was dropped. -/
inductive Stopped where
  | failed (message : String)
  | dropped
  deriving DecidableEq

/-! ## The output of `pacgate` -/

/-- `serde_json::from_str` up to the reading of a structure: the document a text denotes. -/
class SerdeJsonText where
  parse : String → Option (Lib.Content F64)

/-- An instance to evaluate the model on: it knows the texts of a compile without warnings and of
    a lint with one. -/
@[reducible] def SerdeJsonText.sample : SerdeJsonText where
  parse text :=
    if text = "ok" then some (.map [("status", .str "ok"), ("rules_count", .int 3)])
    else if text = "lint" then
      some (.map [("findings", .seq [
        .map [("level", .str "warning"), ("code", .str "W1"), ("message", .str "broad rule")],
        .map [("level", .str "info"), ("message", .str "3 rules")]])])
    else none

structure PacGateCompileOutput where
  status : String
  rulesCount : Option Nat
  outputDir : Option String
  warnings : List String

structure PacGateLintFinding where
  level : String
  code : String
  message : String

structure PacGateLintOutput where
  findings : List PacGateLintFinding

def PacGateCompileOutput.codec : Lib.Codec F64 PacGateCompileOutput :=
  .record
    (.cons "status" (.required .text) <|
      .cons "rules_count" (.optional u32) <|
      .cons "output_dir" (.optional .text) <|
      .cons "warnings" (.orDefault [] (.list .text)) .nil)
    ⟨fun o => (o.status, o.rulesCount, o.outputDir, o.warnings, ()),
      fun (status, rulesCount, outputDir, warnings, ()) =>
        ⟨status, rulesCount, outputDir, warnings⟩,
      fun _ => rfl, fun _ => rfl⟩

def PacGateLintFinding.codec : Lib.Codec F64 PacGateLintFinding :=
  .record
    (.cons "level" (.orDefault "" .text) <|
      .cons "code" (.orDefault "" .text) <|
      .cons "message" (.orDefault "" .text) .nil)
    ⟨fun f => (f.level, f.code, f.message, ()),
      fun (level, code, message, ()) => ⟨level, code, message⟩,
      fun _ => rfl, fun _ => rfl⟩

def PacGateLintOutput.codec : Lib.Codec F64 PacGateLintOutput :=
  .record (.cons "findings" (.orDefault [] (.list PacGateLintFinding.codec)) .nil)
    ⟨fun o => (o.findings, ()), fun (findings, ()) => ⟨findings⟩, fun _ => rfl, fun _ => rfl⟩

/-- The line a finding is reported in. -/
def PacGateLintFinding.line (f : PacGateLintFinding) : String :=
  if f.code = "" then f.message else f.code ++ ": " ++ f.message

/-- The lines of the findings of a level. -/
def PacGateLintOutput.lines (o : PacGateLintOutput) (level : String) : List String :=
  (o.findings.filter fun f => f.level = level).map PacGateLintFinding.line

/-! ## Command lines -/

/-- The flags `run_lint` passes on. -/
def applyLintFlags (options : CompileOptions) : List CommandFlag :=
  (if options.dynamic then
    [("--dynamic", none),
      ("--dynamic-entries", some (toString (max options.dynamicEntries 1)))] else []) ++
  (if options.width > 0 then [("--width", some (toString options.width))] else []) ++
  (if options.target != "" then [("--target", some options.target)] else []) ++
  (if options.ptp then [("--ptp", none)] else []) ++
  (if options.rss || options.rssQueues != 4 then
    [("--rss", none), ("--rss-queues", some (toString (max options.rssQueues 1)))] else []) ++
  (if options.intEnabled || options.intSwitchId != 0 then
    [("--int", none), ("--int-switch-id", some (toString options.intSwitchId))] else [])

def validateArgs (path : String) : List String := ["validate", path, "--json"]

def lintArgs (path : String) (options : CompileOptions) : List String :=
  ["lint", path, "--json"] ++ commandLine (applyLintFlags options)

def compileArgs (path : String) (options : CompileOptions) : List String :=
  ["compile", path, "--json"] ++ commandLine (applyCompileFlags options)

/-! ## `PacGateRunner` -/

section Runner

variable [SerdeJsonText]

def runValidate (path : String) : AgentProc (Except Stopped Unit) := do
  match ← agentOp (.pacgate (validateArgs path)) with
  | none => return .error .dropped
  | some (.error _) => return .error (.failed "Failed to execute pacgate validate")
  | some (.ok output) =>
    if output.success then return .ok ()
    return .error (.failed ("pacgate validate failed: " ++ output.stderrText))

/-- What `run_lint` reads of the output of the process. -/
def Output.findings (o : Output) : Option PacGateLintOutput :=
  (SerdeJsonText.parse o.stdoutText).bind PacGateLintOutput.codec.read

/-- What `run_lint` makes of a process that has ended. -/
def lintOutcome (output : Output) : Except Stopped (List String) :=
  if !output.success then .error (.failed ("pacgate lint failed: " ++ output.stderrText))
  else
    match output.findings with
    | none => .ok []
    | some parsed =>
      let errors := parsed.lines "error"
      if errors ≠ [] then
        .error (.failed ("pacgate lint errors: " ++ String.intercalate " | " errors))
      else .ok (parsed.lines "warning")

def runLint (path : String) (options : CompileOptions) :
    AgentProc (Except Stopped (List String)) := do
  match ← agentOp (.pacgate (lintArgs path options)) with
  | none => return .error .dropped
  | some (.error _) => return .error (.failed "Failed to execute pacgate lint")
  | some (.ok output) => return lintOutcome output

/-- What `run_with_preflight` reads of the output of the compiler. -/
def Output.compiled (o : Output) : Option PacGateCompileOutput :=
  (SerdeJsonText.parse o.stdoutText).bind PacGateCompileOutput.codec.read

/-- What `run_with_preflight` makes of a compiler that has ended. -/
def compileOutcome (lintWarnings : List String) (output : Output) :
    Except Stopped CompileResult :=
  if !output.success then
    .ok ⟨false, "Compilation failed: " ++ output.stderrText, lintWarnings⟩
  else
    match output.compiled with
    | none =>
      .error (.failed ("Failed to parse pacgate compile JSON: " ++ output.stdoutText))
    | some parsed =>
      if parsed.status ≠ "ok" then
        .ok ⟨false, "PacGate compile returned status=" ++ parsed.status ++ ".", lintWarnings⟩
      else
        let warnings := lintWarnings ++ parsed.warnings
        .ok ⟨true, "Compilation successful",
          if output.stderrText = "" then warnings else warnings ++ [output.stderrText]⟩

/-- The last part of `run_with_preflight`. -/
def runCompile (path : String) (options : CompileOptions) (lintWarnings : List String) :
    AgentProc (Except Stopped CompileResult) := do
  match ← agentOp (.pacgate (compileArgs path options)) with
  | none => return .error .dropped
  | some (.error e) =>
    return .ok ⟨false, "PacGate not available: " ++ e, ["pacgate binary not found in PATH"]⟩
  | some (.ok output) => return compileOutcome lintWarnings output

def runWithPreflight (path : String) (options : CompileOptions) :
    AgentProc (Except Stopped CompileResult) :=
  (runValidate path).orReturn fun () =>
    (runLint path options).orReturn fun lintWarnings => runCompile path options lintWarnings

/-- The file of a run, in the directory `temp_dir` gives where no variable names another. -/
def tmpFile (uuid : String) : String := "/tmp/pacinet-rules-" ++ uuid ++ ".yaml"

/-- The end of `compile`: the file is removed, whatever was found, and whether or not that works. -/
def removeTmpFile (path : String) (result : Except Stopped CompileResult) :
    AgentProc (Except Stopped CompileResult) := do
  match ← agentOp (.removeFile path) with
  | none => return .error .dropped
  | some _ => return result

/-- `compile`. A handler that is dropped while the compiler runs leaves the file where it is. -/
def compileRules (rulesYaml : String) (options : CompileOptions) :
    AgentProc (Except Stopped CompileResult) := do
  let path := tmpFile (← agentOp .uuid)
  match ← agentOp (.writeFile path rulesYaml) with
  | none => return .error .dropped
  | some (.error _) => return .error (.failed "Failed to write temp rules file")
  | some (.ok ()) =>
    match ← runWithPreflight path options with
    | .error .dropped => return .error .dropped
    | .error (.failed e) => removeTmpFile path (.error (.failed e))
    | .ok result => removeTmpFile path (.ok result)

end Runner

end PaciNet
