import PaciNet.Web.DeployPage

/-!
# Composing a policy from templates

The deploy page puts the rules of the selected templates into one draft. It reads no YAML: it goes
through the lines of a template, finds the line `rules:`, and cuts the lines under it into blocks by
their indentation. A text is the list of its characters; what is cut through in the middle of a
character leaves a replacement character.
-/

set_option autoImplicit false

namespace PaciNet.DeployPage

abbrev Text := List Char

/-! ## Variables -/

/-- One round of the loop of `parseTemplateVariables`. -/
def readVariable (vars : Labels) (line : Text) : Labels :=
  let trimmed := trimChars line
  if trimmed = [] ∨ trimmed.head? = some '#' then vars
  else
    let key := trimmed.takeWhile (· ≠ '=')
    -- the sign stands first, or is missing
    if key = [] ∨ key.length = trimmed.length then vars
    else
      let value := trimChars (trimmed.drop (key.length + 1))
      if trimChars key = [] then vars
      else assign vars (.ofList (trimChars key)) (.ofList value)

def parseTemplateVariables (raw : String) : Labels :=
  (raw.toList.splitOn '\n').foldl readVariable ∅

/-- `[A-Za-z0-9_]`. -/
def isWord (c : Char) : Bool := c.isAlphanum || c == '_'

/-- The name of the variable a text begins with, between braces after a dollar sign. -/
def variableAt : Text → Option Text
  | '$' :: '\x7b' :: rest =>
    let name := rest.takeWhile isWord
    if name ≠ [] ∧ (rest.drop name.length).head? = some '\x7d' then some name else none
  | _ => none

/-- Puts the variables in from left to right; the characters of one that has been replaced are
    skipped. -/
def substituteFrom (vars : Labels) : (skip : Nat) → Text → Text × List Text
  | _, [] => ([], [])
  | skip + 1, _ :: rest => substituteFrom vars skip rest
  | 0, c :: rest =>
    match variableAt (c :: rest) with
    | none =>
      let (output, missing) := substituteFrom vars 0 rest
      (c :: output, missing)
    | some name =>
      let (output, missing) := substituteFrom vars (name.length + 2) rest
      match vars.lookup (.ofList name) with
      | some value => (value.toList ++ output, missing)
      | none => ('$' :: '\x7b' :: name ++ '\x7d' :: output, name :: missing)

structure Substituted where
  output : Text
  missing : List Text

def substituteVars (input : Text) (vars : Labels) : Substituted :=
  let (output, missing) := substituteFrom vars 0 input
  ⟨output, missing.eraseDups⟩

/-! ## The default action -/

def leadingSpaces (line : Text) : Nat := (line.takeWhile (· == ' ')).length

/-- What `.` does not match, and what `^` matches after with the flag `m`. -/
def isLineEnd (c : Char) : Bool := c.toNat ∈ [0xA, 0xD, 0x2028, 0x2029]

def isQuote (c : Char) : Bool := c == '\'' || c == '"'

/-- One quote at the beginning and one at the end are left out. -/
def stripQuotes (s : Text) : Text :=
  let s := if s.head?.any isQuote then s.tail else s
  if s.getLast?.any isQuote then s.dropLast else s

/-- What `^action:\s*(.+)$` finds in a trimmed line. -/
def actionOf (trimmed : Text) : Option Text :=
  (['a', 'c', 't', 'i', 'o', 'n', ':'].isPrefixOf? trimmed).bind fun rest =>
    let found := rest.dropWhile isSpace
    if found ≠ [] ∧ found.all (!isLineEnd ·) then some (stripQuotes (trimChars found)) else none

/-- The loop of `extractDefaultsAction`, with the indentation of `defaults:` while under it. -/
def actionFrom : (defaultsIndent : Option Nat) → List Text → Option Text
  | _, [] => none
  | defaultsIndent, line :: lines =>
    if trimChars line = [] then actionFrom defaultsIndent lines
    else if trimChars line = ['d', 'e', 'f', 'a', 'u', 'l', 't', 's', ':'] then
      actionFrom (some (leadingSpaces line)) lines
    else
      match defaultsIndent with
      | none => actionFrom none lines
      | some indent =>
        if leadingSpaces line ≤ indent then actionFrom none lines
        else
          match actionOf (trimChars line) with
          | some action => some action
          | none => actionFrom (some indent) lines

def extractDefaultsAction (yaml : Text) : Option Text := actionFrom none (yaml.splitOn '\n')

/-! ## Rule blocks -/

/-- `slice` from a place counted in UTF-16 units. -/
def sliceFrom : (start : Nat) → Text → Text
  | 0, s => s
  | _, [] => []
  | start + 1, c :: s =>
    if c.toNat < 0x10000 then sliceFrom start s
    else
      match start with
      | 0 => '\uFFFD' :: s
      | start + 1 => sliceFrom start s

def isEmptyLine (line : Text) : Bool := trimChars line == []

def startsItem (line : Text) : Bool := ['-', ' '].isPrefixOf (trimChars line)

def isRulesLine (line : Text) : Bool := trimChars line == ['r', 'u', 'l', 'e', 's', ':']

/-- The inner loop goes on at this line. -/
def inBlock (rulesIndent itemIndent : Nat) (next : Text) : Bool :=
  isEmptyLine next ||
    (rulesIndent < leadingSpaces next && !(leadingSpaces next == itemIndent && startsItem next))

/-- What rules are indented by in the draft. -/
def margin : Text := [' ', ' ', ' ', ' ']

/-- A line of a block in the draft. -/
def normalize (itemIndent : Nat) (line : Text) : Text :=
  if isEmptyLine line then [] else margin ++ sliceFrom itemIndent line

/-- The loops of `extractRules` under the line `rules:`: the lines of each block, as they come into
    the draft. The number is how many rounds are left. -/
def ruleBlocks (rulesIndent : Nat) : (rounds : Nat) → List Text → List (List Text)
  | 0, _ => []
  | _, [] => []
  | rounds + 1, line :: lines =>
    if isEmptyLine line then ruleBlocks rulesIndent rounds lines
    else if leadingSpaces line ≤ rulesIndent then []
    else if startsItem line then
      let itemIndent := leadingSpaces line
      let block := line :: lines.takeWhile (inBlock rulesIndent itemIndent)
      block.map (normalize itemIndent) ::
        ruleBlocks rulesIndent rounds (lines.dropWhile (inBlock rulesIndent itemIndent))
    else ruleBlocks rulesIndent rounds lines

/-- What the brackets take in `\s*([…]+)`: white space is given back until they take something. -/
def capture (p : Char → Bool) (s : Text) : Option Text :=
  (List.range ((s.takeWhile isSpace).length + 1)).reverse.findSome? fun n =>
    let found := (s.drop n).takeWhile p
    if found = [] then none else some found

/-- A match at the first line that has one, as `^` asks for with the flag `m`. -/
def matchLine (find : Text → Option Text) : (atStart : Bool) → Text → Option Text
  | true, [] => find []
  | false, [] => none
  | true, c :: s => (find (c :: s)).or (matchLine find (isLineEnd c) s)
  | false, c :: s => matchLine find (isLineEnd c) s

/-- `^\s*-\s*name:\s*([^\n#]+)`. -/
def nameAt (s : Text) : Option Text :=
  (['-'].isPrefixOf? (s.dropWhile isSpace)).bind fun rest =>
    (['n', 'a', 'm', 'e', ':'].isPrefixOf? (rest.dropWhile isSpace)).bind
      (capture fun c => c != '\n' && c != '#')

/-- `^\s*priority:\s*([0-9]+)`. -/
def priorityAt (s : Text) : Option Text :=
  (['p', 'r', 'i', 'o', 'r', 'i', 't', 'y', ':'].isPrefixOf? (s.dropWhile isSpace)).bind
    (capture Char.isDigit)

structure ExtractedRule where
  block : String
  name : String
  priority : String
deriving DecidableEq

def extractedRule (lines : List Text) : ExtractedRule :=
  let normalized := ['\n'].intercalate lines
  { block := .ofList normalized
    name := match matchLine nameAt true normalized with
      | some name => .ofList (trimChars name)
      | none => "(unnamed)"
    priority := match matchLine priorityAt true normalized with
      | some priority => .ofList priority
      | none => "(none)" }

/-- The blocks under the first line `rules:`. -/
def extractBlocks (yaml : Text) : List (List Text) :=
  match (yaml.splitOn '\n').dropWhile (!isRulesLine ·) with
  | [] => []
  | rules :: lines => ruleBlocks (leadingSpaces rules) lines.length lines

def extractRules (yaml : Text) : List ExtractedRule := (extractBlocks yaml).map extractedRule

/-! ## The draft -/

inductive WarningCode
  | missingVar
  | noRules
  | dupRuleName
  | dupPriority
deriving DecidableEq

structure ComposeWarning where
  code : WarningCode
  message : String
deriving DecidableEq

/-- The variables of the loop of `composeFromTemplates`. -/
structure Composing where
  warnings : List ComposeWarning
  mergedRules : List ExtractedRule
  seenNames : List String
  seenPriorities : List String
  defaultsAction : Option Text

/-- A template as the controller answers it. -/
structure PolicyTemplateJson where
  name : String
  rulesYaml : String

def mergeRule (tpl : PolicyTemplateJson) (s : Composing) (rule : ExtractedRule) : Composing :=
  { s with
    warnings := s.warnings ++
      (if rule.name ∈ s.seenNames then
        [⟨.dupRuleName, "Duplicate rule name '" ++ rule.name ++ "' from template '" ++ tpl.name ++
          "'"⟩]
      else []) ++
      (if rule.priority ≠ "(none)" ∧ rule.priority ∈ s.seenPriorities then
        [⟨.dupPriority, "Duplicate priority '" ++ rule.priority ++ "' (template '" ++ tpl.name ++
          "')"⟩]
      else [])
    seenNames := rule.name :: s.seenNames
    seenPriorities :=
      if rule.priority ≠ "(none)" then rule.priority :: s.seenPriorities else s.seenPriorities
    mergedRules := s.mergedRules ++ [rule] }

/-- An action that is missing or empty is looked for again. -/
def isMissing (action : Option Text) : Bool := action.all (· == [])

def mergeTemplate (vars : Labels) (s : Composing) (tpl : PolicyTemplateJson) : Composing :=
  let sub := substituteVars tpl.rulesYaml.toList vars
  let rules := extractRules sub.output
  rules.foldl (mergeRule tpl)
    { s with
      warnings := s.warnings ++
        (if sub.missing.length > 0 then
          [⟨.missingVar, tpl.name ++ ": missing variables " ++
            ", ".intercalate (sub.missing.map .ofList)⟩]
        else []) ++
        (if rules.length = 0 then [⟨.noRules, tpl.name ++ ": no rules block detected"⟩] else [])
      defaultsAction :=
        if isMissing s.defaultsAction then extractDefaultsAction sub.output else s.defaultsAction }

/-- The action of the draft. -/
def Composing.action (s : Composing) : Text :=
  if isMissing s.defaultsAction then ['d', 'r', 'o', 'p'] else s.defaultsAction.getD []

/-- What stands above the rules of a draft. -/
def preamble (action : Text) : String :=
  "pacgate:\n" ++ "  version: \"1.0\"\n" ++ "  defaults:\n" ++ "    action: " ++ .ofList action ++
    "\n" ++ "  rules:\n"

def Composing.yaml (s : Composing) : String :=
  preamble s.action ++
    (if s.mergedRules.length > 0 then "\n".intercalate (s.mergedRules.map (·.block)) ++ "\n"
    else "    []\n")

structure Draft where
  rulesYaml : String
  composeWarnings : List ComposeWarning
deriving DecidableEq

/-- The loop of `composeFromTemplates`. -/
def mergeTemplates (vars : Labels) (details : List PolicyTemplateJson) : Composing :=
  details.foldl (mergeTemplate vars) ⟨[], [], [], [], none⟩

/-- The draft from the templates that are selected, if any is. -/
def composeFromTemplates (templateVars : String) (details : List PolicyTemplateJson) :
    Option Draft :=
  if details.length = 0 then none
  else
    let s := mergeTemplates (parseTemplateVariables templateVars) details
    some ⟨s.yaml, s.warnings⟩

end PaciNet.DeployPage
