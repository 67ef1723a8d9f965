import SdkBindings.Module.Preamble
import SdkBindings.Module.Sections

/-!
# Whole modules

The text of a module: a short introduction that names the library and the headers, the support code,
and the sections.  White space at the very end gives way to a single line end.
-/

namespace SdkBindings.Module

/-- The introduction of a module, up to and including the support code. -/
def introduction (library : String) (project : Project) : List Line :=
  [.text ("\"\"\"ctypes bindings for " ++ library ++ "."),
   .blank,
   .text ("Generated by com-header-bindgen from " ++ ", ".intercalate (project.map Header.file) ++ "."),
   .text "Do not edit by hand.",
   .text "\"\"\"",
   .blank,
   .text "import ctypes",
   .blank,
   .text ("_DLL_NAME = \"" ++ library ++ "\""),
   .text preamble]

/-- The names of all enumerations of a project. -/
def enumNames (project : Project) : List String :=
  project.flatMap fun h => h.enums.map Enumeration.ident

/-- The lines of a module. -/
def moduleLines (ctx : Context) (project : Project) : Writing (List Line) := do
  let constants ← project.mapM constantsSection
  let classes ← project.mapM fun h => do
    let opened ← headerClasses ctx h
    pure (h, opened)
  let aliases ← project.mapM (aliasesSection ctx)
  let enums ← project.mapM enumsSection
  let layouts ← classes.mapM fun (h, opened) => layoutsSection h opened
  let functions ← project.mapM (functionsSection ctx)
  pure (introduction ctx.library project ++ constants.flatten ++
    [.text "_register_hresults(globals())", .blank, .blank] ++
    classes.flatMap (fun (h, opened) => classesSection h opened) ++
    aliases.flatten ++ enums.flatten ++ layouts.flatten ++ functions.flatten)

/-- The text of lines; white space at the end gives way to a line end. -/
def renderLines (lines : List Line) : String :=
  let text := "\n".intercalate (lines.map Line.render)
  String.ofList ((text.toList.reverse.dropWhile Text.isBlank).reverse) ++ "\n"

/-- The name of this stage in reports. -/
def stage : String := "BindingGenerator.generate"

/-- What is reported about a module that has been written. -/
def summary (w : Written) : LogEntry :=
  info ("Generated bindings: " ++ toString w.constants.length ++ " constants, " ++
    toString w.types.length ++ " types")

/-- The text of the module of a project, and what is reported while it is written. -/
def generate (library : String) (maxSlots : Int) (project : Project) : Except Error String × Log :=
  let ctx : Context := ⟨library, maxSlots, enumNames project⟩
  match (moduleLines ctx project).run .start with
  | (.ok lines, w) => (.ok (renderLines lines), timed stage (w.log ++ [summary w]) none)
  | (.error e, w) => (.error e, timed stage w.log (some e.message))

end SdkBindings.Module
