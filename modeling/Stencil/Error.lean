/-
# Compile errors

Why a template cannot be compiled, an option cannot be set or a file cannot be
used.

Key definitions:
* `CompileError`: the causes.
* `CompileError.message`: a cause in words.
-/
import Stencil.Location

namespace Stencil

/-- A part of a statement that it cannot be compiled without. -/
inductive Stmt.Part where
  | condition
  | expr
  | iterable
  | path
  | enabled
  | key
  | value
  | assignments
  deriving Repr, DecidableEq

/-- The name of a part of a statement. -/
def Stmt.Part.name : Stmt.Part → String
  | .condition => "condition"
  | .expr => "expr"
  | .iterable => "iterable"
  | .path => "path"
  | .enabled => "enabled"
  | .key => "key"
  | .value => "value"
  | .assignments => "assignments"

/-- What an option takes as its value. -/
inductive Expected where
  | bool
  | string
  | strings
  deriving Repr, DecidableEq

/-- What an option takes, in words. -/
def Expected.text : Expected → String
  | .bool => "a bool value"
  | .string => "a string"
  | .strings => "a list of strings"

/-- Why something failed. -/
inductive CompileError where
  | corruptStatement (part : Stmt.Part) (location : Location)
  | unknownStatement (location : Location)
  | unknownExpression (location : Location)
  | unknownFilter (name : String) (location : Location)
  | invalidFilter (location : Location)
  | duplicateMacro (name : String) (location : Location)
  | invalidOption (option : String) (expected : Expected)
  /-- The path resolver gave no path for a template. -/
  | pathResolution (template : String)
  /-- The stem of loop variables is no identifier. -/
  | invalidStem
  | sourceNotFound (path : String)
  | sourceUnreadable (path : String)
  | samePath (path : String)
  | cacheRead (path : String)
  | invalidCache (path : String)
  | cacheWrite (path : String)
  | invalidTree (source : String)
  /-- Templates include or extend one another without end. -/
  | endlessNesting (path : String)
  deriving Repr, DecidableEq

namespace CompileError

/-- A cause in words. -/
def message : CompileError → String
  | .corruptStatement part l =>
    "Corrupted statement in " ++ l.text ++ ": missing '" ++ part.name ++ "'"
  | .unknownStatement l => "Unknown statement in " ++ l.text
  | .unknownExpression l => "Unknown expression in " ++ l.text
  | .unknownFilter name l => "Unknown filter \"" ++ name ++ "\" in " ++ l.text
  | .invalidFilter l => "Unknown filter type in " ++ l.text
  | .duplicateMacro name l => "Macro '" ++ name ++ "' is already defined in " ++ l.text
  | .invalidOption option expected => "'" ++ option ++ "' must be " ++ expected.text
  | .pathResolution t => "'path' resolver didn't return a valid string for " ++ t
  | .invalidStem => "The unique compilation prefix is invalid"
  | .sourceNotFound p => "Template file " ++ p ++ " does not exist"
  | .sourceUnreadable p => "Template file " ++ p ++ " could not be opened"
  | .samePath p => "Template path and compilation path can't be the same: " ++ p
  | .cacheRead p => "Compiled template " ++ p ++ " could not be read"
  | .invalidCache p => "Extends compilation file " ++ p ++ " is corrupted"
  | .cacheWrite p => "Compiled template " ++ p ++ " could not be written"
  | .invalidTree source => "Invalid intermediate representation in " ++ source
  | .endlessNesting p => "Template file " ++ p ++ " is nested without end"

end CompileError
end Stencil
