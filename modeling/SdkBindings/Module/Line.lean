/-!
# Lines of a generated module

A module is put together as a list of lines that say what they are: bindings, class statements,
layouts and so on.  Rendering them is the last step, so that what a module defines and uses can be
read off its lines.
-/

namespace SdkBindings.Module

/-- Four spaces for each level of indentation. -/
def indentation (level : Nat) : String :=
  String.ofList (List.replicate (4 * level) ' ')

/-- A line of a module. -/
inductive Line where
  /-- Text that neither binds nor uses a declared name. -/
  | text (text : String)
  /-- A remark, or a binding that is left out. -/
  | comment (text : String)
  /-- A name bound to an expression. -/
  | bind (name expression : String)
  /-- The statement that opens a class. -/
  | openClass (name : String)
  /-- A line inside a class or a function. -/
  | body (level : Nat) (text : String)
  /-- The start of the layout of a class. -/
  | openLayout (name : String)
  /-- A member of a layout. -/
  | member (name type : String)
  /-- The end of a layout. -/
  | closeLayout
  deriving DecidableEq, Repr

/-- The text of a line. -/
def Line.render : Line → String
  | .text s => s
  | .comment s => "# " ++ s
  | .bind name expression => name ++ " = " ++ expression
  | .openClass name => "class " ++ name ++ "(ctypes.Structure, Bindable):"
  | .body level s => indentation level ++ s
  | .openLayout name => name ++ "._fields_ = ["
  | .member name type => indentation 1 ++ "(\"" ++ name ++ "\", " ++ type ++ "),"
  | .closeLayout => "]"

section

variable (s name expression type : String) (level : Nat)

/-- The text of the introduction and of the support code is written as it is. -/
theorem Line.render_text : (Line.text s).render = s := rfl

/-- How a remark is written. -/
theorem Line.render_comment : (Line.comment s).render = "# " ++ s := rfl

/-- How a binding is written. -/
theorem Line.render_bind : (Line.bind name expression).render = name ++ " = " ++ expression := rfl

/-- How a class statement is written. -/
theorem Line.render_openClass :
    (Line.openClass name).render = "class " ++ name ++ "(ctypes.Structure, Bindable):" := rfl

/-- How a line inside a class or a function is written. -/
theorem Line.render_body : (Line.body level s).render = indentation level ++ s := rfl

/-- How the start of a layout is written. -/
theorem Line.render_openLayout : (Line.openLayout name).render = name ++ "._fields_ = [" := rfl

/-- How a member of a layout is written. -/
theorem Line.render_member : (Line.member name type).render =
    indentation 1 ++ "(\"" ++ name ++ "\", " ++ type ++ ")," := rfl

end

/-- An empty line. -/
def Line.blank : Line := .text ""

end SdkBindings.Module
