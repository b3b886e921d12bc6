/-
Node-name sanitizing and the sandbox gate: `netlist/sanitizer.ts`.
-/
import CircuitForge.Js.Runtime

namespace CircuitForge

open Js

/-! ## Node names -/

/-- `RESERVED_WORDS`. -/
def reservedWords : List Text :=
  ["all", "none", "in", "out", "vcc", "vdd", "vss", "gnd", "ground"].map String.toList

/-- `NGSPICE_OPERATORS`. -/
def ngspiceOperators : List Text :=
  ["eq", "ne", "gt", "lt", "ge", "le", "and", "or", "not"].map String.toList

/-- Special characters become underscores. -/
def wordChars (name : Text) : Text := name.map fun c => if isWord c then c else '_'

/-- A leading digit is prefixed. -/
def escapeDigit (s : Text) : Text := if s.head?.any Char.isDigit then 'n' :: s else s

/-- A reserved word is prefixed.  The text is ASCII by now. -/
def escapeReserved (s : Text) : Text :=
  if asciiLower s ∈ reservedWords then "x_".toList ++ s else s

def escapeEmpty (s : Text) : Text := if s = [] then "node".toList else s

/-- Every other name gets the prefix `n`. -/
def addNodePrefix (s : Text) : Text :=
  if !startsWith s "n".toList && !startsWith s "x_".toList then 'n' :: s else s

/-- An operator token is prefixed. -/
def escapeOperator (s : Text) : Text :=
  if asciiLower s ∈ ngspiceOperators then "x_".toList ++ s else s

/-- `sanitizeNodeName`. -/
def sanitizeNodeName (name : Text) : Text :=
  escapeOperator (addNodePrefix (escapeEmpty (escapeReserved (escapeDigit (wordChars name)))))

/-! ## Include paths -/

inductive SecurityCode where
  | absolutePath | pathTraversal | specialPrefix | invalidChars | dangerousCommand
  deriving DecidableEq

structure SecurityError where
  message : Text
  code : SecurityCode
  deriving DecidableEq

/-- `[a-zA-Z0-9_\-./]`. -/
def isPathChar (c : Char) : Bool := isWord c || c == '-' || c == '.' || c == '/'

/-- `/^[A-Za-z]:/`. -/
def hasDrivePrefix : Text → Bool
  | c :: ':' :: _ => c.isAlpha
  | _ => false

/-- `validateIncludePath`; the job directory is not read. -/
def validateIncludePath (includePath : Text) : Except SecurityError Unit :=
  if startsWith includePath "/".toList || hasDrivePrefix includePath then
    .error ⟨"Absolute include path not allowed: ".toList ++ includePath, .absolutePath⟩
  else if includes includePath "..".toList then
    .error ⟨"Path traversal not allowed: ".toList ++ includePath, .pathTraversal⟩
  else if startsWith includePath "~".toList || startsWith includePath "$".toList then
    .error ⟨"Special path prefix not allowed: ".toList ++ includePath, .specialPrefix⟩
  else if includePath.isEmpty || !includePath.all isPathChar then
    .error ⟨"Invalid characters in include path: ".toList ++ includePath, .invalidChars⟩
  else .ok ()

/-- `validateIncludePaths`. -/
def validateIncludePaths : List Text → Except SecurityError Unit
  | [] => .ok ()
  | p :: ps => do
    validateIncludePath p
    validateIncludePaths ps

/-! ## The gate -/

/-- `DANGEROUS_COMMANDS`. -/
def dangerousCommands : List Text :=
  ["shell", "system", "source", "exec", "cd", "load", "osdi", "codemodel", "pre_osdi"].map
    String.toList

/-- `FILE_PATH_COMMANDS`. -/
def filePathCommands : List Text :=
  ["wrdata", "write", "wrs", "sconvert", "rawfile"].map String.toList

def isQuote (c : Char) : Bool := c == '"' || c == '\''

/-- `s.replace(/^\./, '')`. -/
def dropDot : Text → Text
  | '.' :: s => s
  | s => s

/-- `/^["']/` removed. -/
def dropQuote : Text → Text
  | c :: s => if isQuote c then s else c :: s
  | [] => []

/-- `s.replace(/^["']|["']$/g, '')`. -/
def stripQuotes (s : Text) : Text := (dropQuote (dropQuote s).reverse).reverse

/-- `["']?([^"'\s]+)["']?`, group 1, empty where the pattern fails. -/
def includeWord (s : Text) : Text := (dropQuote s).takeWhile fun c => !isQuote c && !isSpace c

/-- `/^\.include\s+["']?([^"'\s]+)["']?/i`, group 1. -/
def includeTargetAt (s : Text) : Option Text :=
  if startsWithI s ".include".toList then
    let rest := s.drop 8
    if rest.head?.any isSpace then
      let path := includeWord (trimStart rest)
      if path = [] then none else some path
    else none
  else none

/-- The same pattern at the leftmost place it matches. -/
def includeTarget : Text → Option Text
  | [] => none
  | c :: s => (includeTargetAt (c :: s)).or (includeTarget s)

variable [Runtime]

/-- The command word the gate compares: the first token, lower-cased, without its
leading dot. -/
def commandOf (line : Text) : Text :=
  dropDot (Runtime.lower ((splitBlanks (trim line)).headD []))

/-- The include check of one line. -/
def checkInclude (line : Text) : Except SecurityError Unit :=
  if commandOf line = "include".toList then
    match includeTarget line with
    | some path => validateIncludePath path
    | none => .ok ()
  else .ok ()

/-- The file-command check of one line. -/
def checkFilePath (line : Text) : Except SecurityError Unit :=
  if commandOf line ∈ filePathCommands then
    match truthy ((splitBlanks (trim line))[1]?) with
    | some token => validateIncludePath (stripQuotes token)
    | none => .ok ()
  else .ok ()

/-- One turn of the loop of `sanitizeNetlist`. -/
def checkLine (line : Text) : Except SecurityError Unit :=
  if trim line = [] ∨ startsWith (trim line) "*".toList then .ok ()
  else if commandOf line ∈ dangerousCommands then
    .error ⟨"Disallowed ngspice command \"".toList ++
      Runtime.lower ((splitBlanks (trim line)).headD []) ++
      ("\" (shell/system/source/exec/cd/load/osdi are blocked, including inside a " ++
        ".control block)").toList, .dangerousCommand⟩
  else do
    checkInclude line
    checkFilePath line

def checkLines : List Text → Except SecurityError Unit
  | [] => .ok ()
  | l :: ls => do
    checkLine l
    checkLines ls

/-- `sanitizeNetlist`. -/
def sanitizeNetlist (netlist : Text) : Except SecurityError Text := do
  checkLines (splitLines netlist)
  return netlist

end CircuitForge
