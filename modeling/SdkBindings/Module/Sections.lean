import SdkBindings.Declaration.Header
import SdkBindings.Log
import SdkBindings.Module.Expression
import SdkBindings.Module.Wrapper
import SdkBindings.Rules
import SdkBindings.Text.Hexadecimal

/-!
# The sections of a generated module

A module binds its constants first, then opens all classes, binds aliases and enumerations, assigns
the layouts of the classes and defines the wrappers of functions last.  Each section walks over the
headers of the project.  What has been bound so far decides what a later line may refer to: an
expression with an unknown name is written as a remark, and a member of an unknown type is laid out
as an address.
-/

namespace SdkBindings.Module

/-- What is fixed for a whole module. -/
structure Context where
  /-- The library that exports the functions. -/
  library : String
  /-- The largest call helper that may be used. -/
  maxSlots : Int
  /-- The names of all enumerations. -/
  enums : List String

/-- What has been written so far. -/
structure Written where
  /-- The constants bound by macros. -/
  constants : List String
  /-- The constants that expressions may refer to. -/
  values : List String
  /-- The types that layouts and aliases may refer to. -/
  types : List String
  /-- What has been reported. -/
  log : Log

/-- Nothing has been written. -/
def Written.start : Written := ⟨[], [], [], []⟩

/-- A step of writing, which may fail; what was reported before stays. -/
abbrev Writing := ExceptT Error (StateM Written)

/-- Adds a name to a list of names without repetition. -/
def addName (name : String) (names : List String) : List String :=
  if names.contains name then names else names ++ [name]

/-- Reports an entry. -/
def report (entry : LogEntry) : Writing Unit :=
  modifyThe Written fun w => { w with log := w.log ++ [entry] }

/-- Makes a constant known to later expressions. -/
def addValue (name : String) : Writing Unit :=
  modifyThe Written fun w => { w with values := addName name w.values }

/-- Makes a type known to later lines. -/
def addType (name : String) : Writing Unit :=
  modifyThe Written fun w => { w with types := addName name w.types }

/-- Lines under a heading, unless there are none. -/
def underHeading (heading : List Line) (lines : List Line) (ending : List Line) : List Line :=
  if lines = [] then [] else heading ++ lines ++ ending

/-! ## Constants -/

/-- Whether a line is written as a remark. -/
def Line.isRemark (line : Line) : Bool :=
  line.render.toList.head? = some '#'

/-- The line of a constant: a binding, or a remark when its expression uses an unknown name or is
empty. -/
def assignment (name : String) (value : Value) : Writing Line := do
  if value.isResolved then do
    addValue name
    pure (.bind name value.resolve)
  else
    match expression value.raw with
    | .error e => throw (.expression e)
    | .ok text => do
      let written ← getThe Written
      if text = "" ∨ unknownNames written.values text ≠ [] then do
        report (debug ("Constant " ++ name ++ " left unresolved: " ++ value.raw))
        pure (.comment (name ++ " = " ++ value.raw))
      else do
        addValue name
        pure (.bind name text)

/-- The line of a macro.  A name is bound once; version guards and macros that stand for themselves
have no line. -/
def constantLine (m : Macro) : Writing (List Line) := do
  let ident := safeName m.ident
  let written ← getThe Written
  if written.constants.contains ident || Rules.isVersionGuard ident then pure []
  else if ident = m.value.resolve then pure []
  else do
    let line ← assignment ident m.value
    if !line.isRemark then
      modifyThe Written fun w => { w with constants := addName ident w.constants }
    pure [line]

/-- The constants of a header. -/
def constantsSection (h : Header) : Writing (List Line) := do
  let lines ← h.macros.mapM constantLine
  pure (underHeading [.comment ("Constants: " ++ h.file)] lines.flatten [.blank, .blank])

/-! ## Classes -/

/-- A class that has been opened: its name, the fields to lay out and its lines. -/
structure OpenedClass where
  /-- The name. -/
  ident : String
  /-- The fields of its layout. -/
  fields : List Field
  /-- The lines of its statement. -/
  lines : List Line

/-- The method of a class that gives its interface identifier. -/
def guidAccessor (s : Struct) : Except Error (List Line) :=
  match s.guidParts with
  | none => .error (.guidNotDecomposed s.ident)
  | some parts =>
    let byte (b : Int) : String := "0x" ++ Text.hexUpper 2 b
    .ok [.body 1 "@classmethod",
      .body 1 "def guid(cls):",
      .body 2 ("\"\"\"Interface identifier \x7b" ++ s.guid ++ "\x7d.\"\"\""),
      .body 2 ("return " ++ guidExpr ++ "("),
      .body 3 ("0x" ++ Text.hexUpper 8 parts.data1 ++ ","),
      .body 3 ("0x" ++ Text.hexUpper 4 parts.data2 ++ ","),
      .body 3 ("0x" ++ Text.hexUpper 4 parts.data3 ++ ","),
      .body 3 ("(ctypes.c_ubyte * 8)(" ++ ", ".intercalate (parts.data4.map byte) ++ "),"),
      .body 2 ")"]

/-- The wrapper of a method. -/
def methodWrapper (ctx : Context) (ident : String) (f : Field) : Except Error Wrapper :=
  let owner := ident ++ "." ++ f.name
  match f.type.parameters with
  | receiver :: parameters =>
    if receiver.name = "This" then
      Wrapper.of ctx.enums ctx.maxSlots
        { name := safeName f.name
          parameters
          target := "self.lpVtbl.contents." ++ f.name
          hasReceiver := true
          result := f.type.ident
          owner }
    else .error (.noReceiver owner)
  | [] => .error (.noReceiver owner)

/-- The lines of methods, an empty line before each unless it comes first. -/
def methodLines (ctx : Context) (ident : String) (isFirst : Bool) :
    List Field → Except Error (List Line)
  | [] => .ok []
  | f :: rest =>
    if f.type.shape = .functionPointer then do
      let w ← methodWrapper ctx ident f
      let tail ← methodLines ctx ident false rest
      pure ((if isFirst then [] else [Line.blank]) ++ w.lines 1 ++ tail)
    else methodLines ctx ident isFirst rest

/-- The body of the class of a struct: its identifier and the methods of its table. -/
def structBody (ctx : Context) (s : Struct) (table : Option Vtable) : Except Error (List Line) := do
  let guid ← if s.guid = "" then pure [] else guidAccessor s
  let methods ← match table with
    | some t => methodLines ctx s.ident (decide (guid = [])) t.fields
    | none => pure []
  pure (guid ++ methods)

/-- Opens a class, which has to have something to lay out. -/
def openClass (ident : String) (fields : List Field) (body : List Line) : Writing OpenedClass := do
  if fields.isEmpty then throw (.noFields ident)
  addType ident
  pure ⟨ident, fields,
    .openClass ident :: (if body = [] then [.body 1 "pass"] else body) ++ [.blank, .blank]⟩

/-- Whether a type is known already. -/
def isKnownType (ident : String) : Writing Bool := do
  let written ← getThe Written
  pure (written.types.contains ident)

/-- A result without effects as a step of writing. -/
def ofExcept {α : Type} : Except Error α → Writing α
  | .ok a => pure a
  | .error e => throw e

/-- Opens the classes of a struct and of its table of methods, each unless its name is taken. -/
def structClasses (ctx : Context) (h : Header) (s : Struct) : Writing (List OpenedClass) := do
  if ← isKnownType s.ident then do
    report (warning (h.file ++ ": struct " ++ s.ident ++ " already declared, skipping"))
    pure []
  else do
    let table := h.vtable? s
    let body ← ofExcept (structBody ctx s table)
    let opened ← openClass s.ident s.fields body
    match table with
    | none => pure [opened]
    | some t =>
      if ← isKnownType t.ident then pure [opened]
      else do
        let second ← openClass t.ident t.fields []
        pure [opened, second]

/-- The classes of a header. -/
def headerClasses (ctx : Context) (h : Header) : Writing (List OpenedClass) := do
  let classes ← h.structs.mapM (structClasses ctx h)
  pure classes.flatten

/-- The lines that open the classes of a header. -/
def classesSection (h : Header) (classes : List OpenedClass) : List Line :=
  underHeading [.comment ("Types: " ++ h.file), .blank] (classes.flatMap OpenedClass.lines) []

/-! ## Aliases and enumerations -/

/-- What an alias stands for in the generated module. -/
def aliasTarget (enums : List String) (target : String) : String :=
  match platformType? target with
  | some t => t.expr
  | none => if enums.contains target then uint32Expr else target

/-- The line of an alias. -/
def aliasLine (ctx : Context) (file : String) (a : Alias) : Writing (List Line) := do
  let target := aliasTarget ctx.enums a.target
  if a.ident = target then pure []
  else do
    let written ← getThe Written
    if unknownNames written.types target ≠ [] then do
      report (warning (file ++ ": alias " ++ a.ident ++ " refers to unknown " ++ target))
      pure [.comment (a.ident ++ " = " ++ target)]
    else do
      addType a.ident
      pure [.bind a.ident target]

/-- The aliases of a header. -/
def aliasesSection (ctx : Context) (h : Header) : Writing (List Line) := do
  let lines ← h.aliases.mapM (aliasLine ctx h.file)
  pure (underHeading [.comment ("Type aliases: " ++ h.file)] lines.flatten [.blank, .blank])

/-- The line of a constant of an enumeration; one that stands for itself has none. -/
def enumeratorLine (c : Enumerator) : Writing (List Line) := do
  let ident := safeName c.ident
  if ident = c.value.resolve then pure []
  else do
    let line ← assignment ident c.value
    pure [line]

/-- An enumeration: its type and its constants. -/
def enumLines (e : Enumeration) : Writing (List Line) := do
  addType e.ident
  let lines ← e.enumerators.mapM enumeratorLine
  pure (.bind e.ident uint32Expr :: lines.flatten ++ [.blank, .blank])

/-- The enumerations of a header. -/
def enumsSection (h : Header) : Writing (List Line) := do
  let lines ← h.enums.mapM enumLines
  pure (underHeading [.comment ("Enums: " ++ h.file)] lines.flatten [])

/-! ## Layouts -/

/-- The name of a member in a layout: a length makes way for its array. -/
def memberName (f : Field) : String :=
  if f.isLength then f.name ++ "_count" else f.name

/-- The type of a member before unknown names are looked for. -/
def memberType (f : Field) : String :=
  if f.isErased || f.isArray then voidPointer else f.type.expr

/-- The line of a member of a layout. -/
def layoutMember (ident : String) (f : Field) : Writing Line := do
  if f.type.shape = .union then
    pure (.body 1 ("# union \x7b" ++ ", ".intercalate (f.type.members.map Field.name) ++
      "\x7d is not laid out"))
  else if f.type.expr = "" then throw (.unresolvedType ident f.name)
  else do
    let written ← getThe Written
    match unknownNames written.types (memberType f) with
    | [] => pure (.member (memberName f) (memberType f))
    | unknown => do
      report (warning (ident ++ "." ++ memberName f ++ ": unknown type " ++
        ", ".intercalate (sortNames unknown) ++ ", laid out as a pointer"))
      pure (.member (memberName f) voidPointer)

/-- The layout of a class. -/
def layout (c : OpenedClass) : Writing (List Line) := do
  let members ← c.fields.mapM (layoutMember c.ident)
  pure (.openLayout c.ident :: members ++ [.closeLayout, .blank])

/-- The layouts of the classes of a header. -/
def layoutsSection (h : Header) (classes : List OpenedClass) : Writing (List Line) := do
  let lines ← classes.mapM layout
  pure (underHeading [.comment ("Layouts: " ++ h.file)] lines.flatten [.blank])

/-! ## Functions -/

/-- The wrapper of an exported function. -/
def functionWrapper (ctx : Context) (f : Function) : Except Error Wrapper :=
  Wrapper.of ctx.enums ctx.maxSlots
    { name := safeName f.ident
      parameters := f.parameters
      target := "_proc(\"" ++ f.exportName ++ "\")"
      hasReceiver := false
      result := "HRESULT"
      owner := f.ident }

/-- The lines of a function. -/
def functionLines (ctx : Context) (f : Function) : Writing (List Line) := do
  let w ← ofExcept (functionWrapper ctx f)
  pure (w.lines 0 ++ [.blank, .blank])

/-- The functions of a header. -/
def functionsSection (ctx : Context) (h : Header) : Writing (List Line) := do
  let lines ← h.functions.mapM (functionLines ctx)
  pure (underHeading [.comment ("Functions: " ++ h.file), .blank] lines.flatten [])

end SdkBindings.Module
