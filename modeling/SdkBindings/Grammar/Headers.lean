import SdkBindings.Entries
import SdkBindings.Grammar.Enumerations
import SdkBindings.Grammar.Fields
import SdkBindings.PlatformType
import SdkBindings.Rules
import SdkBindings.Token.Lexer

/-!
# Whole headers

At the level of a header only a few words start a declaration: a directive, an interface identifier,
`typedef`, an exported function and an interface.  Every other token is passed over, and so are
declarations without a body.  Interface identifiers and tables of methods may stand before or after
the struct they belong to, so they are attached once the whole header has been read.
-/

namespace SdkBindings.Grammar

open Reader

/-- A header that is being read. -/
structure Draft where
  /-- The declarations so far. -/
  header : Header
  /-- Interface identifiers by the name of their interface. -/
  guids : List (String × String)
  /-- Tables of methods by their name. -/
  tables : List (String × Vtable)

/-! ## Declarations -/

/-- A directive after its `#`.  Only `#define` counts; the others are passed over to the end of their
line. -/
def directive [Host] (draft : Draft) : Statement Draft := do
  let word ← read nextInLine
  if word.kind = .newline then pure draft
  else if word.text ≠ "define" then do
    let _ ← read readLine
    pure draft
  else do
    let name ← read nextInLine
    if name.kind ≠ .ident then read (fail name "identifier" "#define")
    let body ← read readLine
    if Rules.isSkippedMacro name.text (body.map Token.text) then do
      report [debug ("Skipping macro " ++ name.text ++ ": listed skip rule")]
      pure draft
    else do
      let table ← symbols
      let value ← evaluated (Constant.macroNotes table name body)
        (Constant.evaluateMacro table name body) fun e => debug ("Skipping macro " ++ e.message)
      match value with
      | none => pure draft
      | some v => do
        define name.text v
        let header := draft.header
        pure { draft with header := { header with macros := header.macros ++ [⟨name.text, v⟩] } }

/-- The text between the marks of a literal. -/
def literalBody (text : String) : String :=
  String.ofList (text.toList.drop 1).dropLast

/-- An interface identifier: `("…") Name`. -/
def interfaceGuid (draft : Draft) : Statement Draft := do
  let _ ← read (expect "(" "MIDL_INTERFACE")
  let guid ← read (expectKind .string "MIDL_INTERFACE guid")
  let _ ← read (expect ")" "MIDL_INTERFACE")
  let name ← read (expectKind .ident "MIDL_INTERFACE name")
  pure { draft with guids := Entries.set name.text (literalBody guid.text) draft.guids }

/-- Moves past the tag of an enumeration or struct and its opening brace.  Without a brace the
declaration has no body. -/
def openBody : Reader (Option Token) := do
  let tag ← next
  if tag.text = "\x7b" then pure (some tag)
  else do
    let token ← peek
    if token.text = "\x7b" then do
      let _ ← next
      pure (some tag)
    else pure none

/-- An enumeration after `typedef enum`. -/
def typedefEnum [Host] (draft : Draft) : Statement Draft := do
  match ← read openBody with
  | none => pure draft
  | some tag => do
    let enum ← enumeration (if tag.text = "\x7b" then "" else tag.text)
    let header := draft.header
    pure { draft with header := { header with enums := header.enums ++ [enum] } }

/-- A struct without an identifier and without a table of methods. -/
def plainStruct (ident : String) (fields : List Field) : Struct := ⟨ident, fields, "", none, none⟩

/-- Adds a struct, or a table of methods if its first member is the marker of one. -/
def Draft.addStruct (draft : Draft) (ident : String) (fields : List Field) : Draft :=
  let header := draft.header
  let ordinary := { draft with
    header := { header with structs := header.structs ++ [plainStruct ident fields] } }
  match fields with
  | first :: rest =>
    if first.name = tableMarker then
      { draft with tables := Entries.set ident ⟨ident, rest, "", none, none⟩ draft.tables }
    else ordinary
  | [] => ordinary

/-- A struct after `typedef struct`. -/
def typedefStruct [Host] (draft : Draft) : Statement Draft := do
  match ← read openBody with
  | none => pure draft
  | some tag => do
    let table ← symbols
    let members ← read (fields table .members)
    let name ← read (expectKind .ident "struct name")
    let ident := if tag.kind = .ident then tag.text else name.text
    let _ ← read (expect ";" ("end of struct " ++ ident))
    pure (draft.addStruct ident members)

/-- Adds a type alias. -/
def Draft.addAlias (draft : Draft) (ident target : String) : Draft :=
  let header := draft.header
  { draft with header := { header with aliases := header.aliases ++ [⟨ident, target⟩] } }

/-- A declaration after `typedef`. -/
def typedef [Host] (draft : Draft) : Statement Draft := do
  let kind ← read next
  if kind.text = "enum" then typedefEnum draft
  else if kind.text = "struct" then typedefStruct draft
  else if kind.text = "interface" then pure draft
  else do
    let name ← read next
    if kind.text = "UINT" then pure (draft.addAlias name.text uint32Expr)
    else if kind.kind = .ident ∧ name.kind = .ident then do
      let token ← read peek
      if token.text = ";" then pure (draft.addAlias name.text kind.text) else pure draft
    else pure draft

/-- A function after its result type.  Only functions with the platform's calling convention are
exported ones. -/
def function [Host] (draft : Draft) : Statement Draft := do
  let convention ← read next
  if convention.text ≠ "WINAPI" then pure draft
  else do
    let name ← read (expectKind .ident "function name")
    let _ ← read (expect "(" ("after function name " ++ name.text))
    let first ← read peek
    let second ← read peekSecond
    let parameters ←
      if first.text = "void" ∧ second.text = ")" then do
        let _ ← read next
        let _ ← read next
        pure []
      else do
        let table ← symbols
        read (fields table .parameters)
    let _ ← read (expect ";" ("after parameters of " ++ name.text))
    let header := draft.header
    pure { draft with header := { header with
      functions := header.functions ++ [⟨name.text, name.text, parameters⟩] } }

/-- An interface after `interface`.  Repeating the name declares nothing. -/
def interface [Host] (draft : Draft) : Statement Draft := do
  let name ← read (expectKind .ident "interface name")
  let token ← read next
  if token.text = name.text then pure draft
  else do
    if token.text ≠ "\x7b" then read (fail token "\x7b" ("interface " ++ name.text))
    let table ← symbols
    let members ← read (fields table .members)
    let header := draft.header
    pure { draft with header := { header with
      structs := header.structs ++ [plainStruct name.text members] } }

/-- The declaration that a word starts, or nothing. -/
def declaration [Host] (draft : Draft) (keyword : Token) : Statement Draft :=
  match keyword.text with
  | "#" => directive draft
  | "MIDL_INTERFACE" => interfaceGuid draft
  | "typedef" => typedef draft
  | "HRESULT" => function draft
  | "interface" => interface draft
  | _ => pure draft

/-- All declarations up to the end of the header. -/
def declarations [Host] (bound : Nat) (draft : Draft) : Statement Draft :=
  match bound with
  | 0 => pure draft
  | bound + 1 => do
    let token ← read peek
    if token.kind = .eof then pure draft
    else do
      let keyword ← read next
      let draft ← declaration draft keyword
      declarations bound draft

/-! ## Attaching what was deferred -/

/-- How the name of a table of methods continues the name of its struct. -/
def tableSuffix : String := "Vtbl"

/-- The interfaces with an identifier that are neither structs nor tables of the header. -/
def Draft.unmatched (draft : Draft) : List String :=
  (draft.guids.map Prod.fst).filter fun name =>
    !(draft.header.structs.any fun s => s.ident = name) && !(draft.tables.any fun t => t.1 = name)

/-- The place of a table in the list of those attached so far, to which it is added if need be. -/
def attach (name : String) (table : Vtable) (attached : List (String × Vtable)) :
    Nat × List (String × Vtable) :=
  match attached.findIdx? fun entry => entry.1 = name with
  | some i => (i, attached)
  | none => (attached.length, attached ++ [(name, table)])

/-- A struct with its identifier and its table of methods. -/
def Draft.complete (draft : Draft) (s : Struct) (attached : List (String × Vtable)) :
    Struct × List (String × Vtable) :=
  let s := { s with guid := (draft.guids.lookup s.ident).getD "" }
  let name := s.ident ++ tableSuffix
  match draft.tables.lookup name with
  | none => (s, attached)
  | some table =>
    let (i, attached) := attach name table attached
    ({ s with vtable := some i }, attached)

/-- The structs with what belongs to them, and the tables of methods they refer to. -/
def Draft.completeAll (draft : Draft) : List Struct → List (String × Vtable) →
    List Struct × List (String × Vtable)
  | [], attached => ([], attached)
  | s :: rest, attached =>
    let (s, attached) := draft.complete s attached
    let (rest, attached) := draft.completeAll rest attached
    (s :: rest, attached)

/-- The finished header. -/
def Draft.finish (draft : Draft) : Header :=
  let (structs, attached) := draft.completeAll draft.header.structs []
  { draft.header with structs, vtables := attached.map Prod.snd }

/-- Deals with interfaces whose identifier belongs to nothing: the first one is a failure when
`strict`, otherwise each is reported. -/
def checkGuids (strict : Bool) (draft : Draft) : InSession Unit :=
  match draft.unmatched with
  | [] => pure ()
  | name :: rest =>
    if strict then throw (.unresolvedGuid draft.header.file name)
    else report ((name :: rest).map fun name =>
      warning (Failure.unresolvedGuid draft.header.file name).message)

/-- What is reported about a header that has been read. -/
def summary (h : Header) : LogEntry :=
  debug (h.file ++ ": " ++ toString h.macros.length ++ " macros, " ++ toString h.enums.length ++
    " enums, " ++ toString h.structs.length ++ " structs, " ++ toString h.functions.length ++
    " functions")

/-- Reads the tokens of a header. -/
def headerOfCursor [Host] (strict : Bool) (c : Cursor) : InSession Header := do
  let (draft, _) ← declarations (c.ahead.length + 1) ⟨.empty c.file, [], []⟩ c
  checkGuids strict draft
  let header := draft.finish
  report [summary header]
  pure header

/-- Reads the text of a header.  Nothing is read at all if the text cannot be cut into tokens. -/
def header [Host] (strict : Bool) (file source : String) : InSession Header := do
  match (Lexer.lex file source).tokens? with
  | .error e => throw (.grammar e)
  | .ok tokens =>
    match Cursor.ofTokens? file tokens with
    | some c => headerOfCursor strict c
    | none => pure (.empty file)

/-- Reads a header in a session; the session goes on also after a failure. -/
def readHeader [Host] (strict : Bool) (file source : String) (session : Session) :
    Except Failure Header × Session :=
  (header strict file source).run session

end SdkBindings.Grammar
