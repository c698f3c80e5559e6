import PaciNet.Server.Messages

/-!
# The deploy page of the web client

The page sends a policy to one node or to all nodes with given labels, shows how two versions of
a policy differ, and composes a policy from templates. Records of the client are maps; its texts
are taken to have no lone surrogates.
-/

set_option autoImplicit false

namespace PaciNet.DeployPage

/-- What `String.prototype.trim` takes away: white space and line terminators. -/
def isSpace (c : Char) : Bool :=
  c.toNat ∈ [0x9, 0xA, 0xB, 0xC, 0xD, 0x20, 0xA0, 0x1680, 0x2028, 0x2029, 0x202F, 0x205F, 0x3000,
    0xFEFF] || (0x2000 ≤ c.toNat && c.toNat ≤ 0x200A)

/-- `trim` on the characters of a text. -/
def trimChars (s : List Char) : List Char :=
  ((s.dropWhile isSpace).reverse.dropWhile isSpace).reverse

def trim (s : String) : String := .ofList (trimChars s.toList)

/-- `String.prototype.split` at a separator of one character. -/
def split (s : String) (separator : Char) : List String :=
  (s.toList.splitOn separator).map .ofList

/-! ## Label filters -/

/-- `filter[key] = value` on a record made with `{}`, whose prototype takes no text. -/
def assign (filter : Labels) (key value : String) : Labels :=
  if key = "__proto__" then filter else filter.insert key value

/-- One round of the loop of `parseLabelFilter`. What stands after a second `=` is not read. -/
def readPair (filter : Labels) (pair : String) : Labels :=
  match split pair '=' with
  | k :: v :: _ => if k ≠ "" ∧ v ≠ "" then assign filter (trim k) (trim v) else filter
  | _ => filter

def parseLabelFilter (input : String) : Labels := (split input ',').foldl readPair ∅

/-- Every label of the filter is one of the node; what the prototype of a record holds is no
    text. -/
def nodeMatchesLabelFilter (node : Node) (filter : Labels) : Bool :=
  filter.entries.all fun e => node.labels.lookup e.1 == some e.2

/-- The nodes `handleLoadFleetPolicy` looks at. -/
def fleetTargets (nodes : List Node) (labelFilter : String) : List Node :=
  let filter := parseLabelFilter labelFilter
  if filter.entries.length > 0 then nodes.filter (nodeMatchesLabelFilter · filter) else nodes

/-! ## Deploys -/

inductive Mode
  | single
  | batch
deriving DecidableEq

/-- What is entered on the page. -/
structure Page where
  mode : Mode
  nodeId : String
  labelFilter : String
  rulesYaml : String
  options : CompileOptions

/-- A request the page makes. -/
inductive Sent
  | deployPolicy (request : DeployRequest)
  | batchDeploy (request : BatchDeployRequest)

def handleDeploy (page : Page) : Option Sent :=
  match page.mode with
  | .single =>
    if page.nodeId = "" ∨ page.rulesYaml = "" then none
    else some (.deployPolicy ⟨page.nodeId, page.rulesYaml, page.options, false⟩)
  | .batch =>
    if page.rulesYaml = "" then none
    else
      let filter := parseLabelFilter page.labelFilter
      some (.batchDeploy ⟨filter, page.rulesYaml, page.options, false⟩)

/-! ## Policy diffs -/

inductive DiffKind
  | context
  | added
  | removed
deriving DecidableEq

structure DiffLine where
  kind : DiffKind
  text : String
deriving DecidableEq

/-- One round of the loop of `buildSimpleLineDiff`; a line past the end of its text is
    `undefined`. -/
def diffAt (oldLine newLine : Option String) (out : List DiffLine) : List DiffLine :=
  if oldLine = newLine then
    match oldLine with
    | some line => out ++ [⟨.context, line⟩]
    | none => out
  else
    let out := match oldLine with
      | some line => out ++ [⟨.removed, line⟩]
      | none => out
    match newLine with
    | some line => out ++ [⟨.added, line⟩]
    | none => out

def buildSimpleLineDiff (oldText newText : String) : List DiffLine :=
  let oldLines := split oldText '\n'
  let newLines := split newText '\n'
  (List.range (max oldLines.length newLines.length)).foldl
    (fun out i => diffAt oldLines[i]? newLines[i]? out) []

end PaciNet.DeployPage
