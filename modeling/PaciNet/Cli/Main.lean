import PaciNet.Lib.ByteSlice

/-!
# The tables of the command line client

What the client prints of the answers of the server when it is not asked for JSON. Long texts are
cut at a place counted in bytes, and a cut inside a character panics. How an instant is written is
a parameter: it is `None` for seconds that are no date.
-/

set_option autoImplicit false

namespace PaciNet.Cli

/-! ## Formatting -/

/-- `{:<width}`: text on the left, filled with blanks. -/
def left (width : Nat) (s : String) : String :=
  s ++ .ofList (List.replicate (width - s.length) ' ')

/-- `&s[..n]`. -/
def slice (n : Nat) (s : String) : Option String :=
  (Lib.ByteSlice.slice n s.toList).map .ofList

/-- A text of more than `n` bytes is cut there. -/
def short (n : Nat) (s : String) : Option String :=
  if n < s.utf8ByteSize then slice n s else some s

/-- A text of more than `n` bytes is cut there and dots say so. -/
def shortWithDots (n : Nat) (s : String) : Option String :=
  if n < s.utf8ByteSize then (slice n s).map (· ++ "...") else some s

/-! ## Messages -/

structure AuditEntryInfo where
  /-- Seconds of the timestamp. -/
  timestamp : Option Int
  actor : String
  action : String
  resourceType : String
  resourceId : String
  details : String

structure PolicyTemplateSummary where
  name : String
  description : String
  tags : List String

structure PolicyVersionInfo where
  version : Nat
  policyHash : String
  deployedAt : Option Int

structure DeploymentInfo where
  policyVersion : Nat
  policyHash : String
  deployedAt : Option Int
  result : String
  message : String

/-! ## Tables -/

section

variable (chrono : Int → Option String)

/-- `deployed_at`, where an instant that is no date shows as `?`. -/
def deployed (instant : Option Int) : String :=
  match instant with
  | some seconds => (chrono seconds).getD "?"
  | none => "-"

/-- A table with a header and one line for each entry, or a line that says there is none. -/
def table {α : Type} (empty header : String) (line : α → Option String) (entries : List α) :
    Option (List String) :=
  if entries.isEmpty then some [empty] else (entries.mapM line).map (header :: ·)

def auditLine (e : AuditEntryInfo) : Option String :=
  let time := (e.timestamp.bind chrono).getD "-"
  (shortWithDots 40 e.details).map fun details =>
    left 20 time ++ " " ++ left 10 e.actor ++ " " ++ left 16 e.action ++ " " ++
      left 12 e.resourceType ++ " " ++ left 38 e.resourceId ++ " " ++ details

def handleAudit (entries : List AuditEntryInfo) : Option (List String) :=
  table "No audit entries found"
    (left 20 "TIMESTAMP" ++ " " ++ left 10 "ACTOR" ++ " " ++ left 16 "ACTION" ++ " " ++
      left 12 "TYPE" ++ " " ++ left 38 "RESOURCE ID" ++ " DETAILS")
    (auditLine chrono) entries

def templateLine (t : PolicyTemplateSummary) : Option String :=
  (shortWithDots 28 t.description).map fun desc =>
    left 25 t.name ++ " " ++ left 30 desc ++ " " ++ ", ".intercalate t.tags

/-- `handle_template` with `TemplateCommands::List`. -/
def handleTemplateList (templates : List PolicyTemplateSummary) : Option (List String) :=
  table "No templates found" (left 25 "NAME" ++ " " ++ left 30 "DESCRIPTION" ++ " TAGS")
    templateLine templates

def versionLine (v : PolicyVersionInfo) : Option String :=
  (short 12 v.policyHash).map fun hashShort =>
    left 8 (toString v.version) ++ " " ++ left 16 hashShort ++ " " ++ deployed chrono v.deployedAt

/-- `handle_policy` with `PolicyCommands::History`. -/
def handlePolicyHistory (nodeId : String) (versions : List PolicyVersionInfo) :
    Option (List String) :=
  table ("No policy history for node " ++ nodeId)
    (left 8 "VERSION" ++ " " ++ left 16 "HASH" ++ " DEPLOYED AT") (versionLine chrono) versions

def deploymentLine (d : DeploymentInfo) : Option String :=
  (short 12 d.policyHash).map fun hashShort =>
    left 20 (deployed chrono d.deployedAt) ++ " " ++ left 8 (toString d.policyVersion) ++ " " ++
      left 16 hashShort ++ " " ++ left 12 d.result ++ " " ++ d.message

def handleDeployHistory (nodeId : String) (deployments : List DeploymentInfo) :
    Option (List String) :=
  table ("No deployment history for node " ++ nodeId)
    (left 20 "TIME" ++ " " ++ left 8 "VERSION" ++ " " ++ left 16 "HASH" ++ " " ++
      left 12 "RESULT" ++ " MESSAGE")
    (deploymentLine chrono) deployments

end

end PaciNet.Cli
