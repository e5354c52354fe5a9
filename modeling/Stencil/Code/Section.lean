/-
# Sections of generated code

Generated text switches between plain text and sections of code. This module
holds the fixed wording of the sections that statements are made of.

Key definitions:
* `Code.sect`: code between its marks.
* `Code.Loop`: the parts of a loop, and its code.
* `Code.Macro`: the parts of a macro definition.
-/
import Stencil.Code.Operator
import Stencil.Text.Quoted

namespace Stencil
namespace Code

/-- Code between the marks that open and close a section. -/
def sect (code : String) : String := "<?php " ++ code ++ " ?>"

/-- Print a value. -/
def print (code : String) : String := "<?= " ++ code ++ " ?>"

/-- Print a value with its markup escaped. -/
def printEscaped (code : String) : String := print (apply "$this->escaper->escapeHtml" code)

/-- Open a branch. -/
def ifOpen (condition : String) : String := sect ("if (" ++ condition ++ ") \x7b")

/-- Close a branch and open the next one. -/
def elseIf (condition : String) : String := sect ("\x7d elseif (" ++ condition ++ ") \x7b")

/-- Close a branch and open the last one. -/
def elseOpen : String := sect "\x7d else \x7b"

/-- Close what the last brace opened. -/
def close : String := sect "\x7d"

/-! ### Loops -/

/-- What is known of a loop once its parts are compiled. -/
structure Loop where
  /-- What the variables of the loop start with. -/
  stem : String
  source : String
  target : String
  key : Option String
  guard : Option String
  body : String
  /-- The record of the loop is used in the guard or the body. -/
  recorded : Bool
  /-- The body has a branch for the case that there was nothing to loop over. -/
  branched : Bool

namespace Loop

/-- A variable of the loop. -/
def var (stem name : String) : String := "$" ++ stem ++ name

/-- Set up the record of a loop before it starts. -/
def prologue (l : Loop) : String :=
  let it := var l.stem "iterator"
  let incr := var l.stem "incr"
  let record := var l.stem "loop"
  sect (it ++ " = " ++ l.source ++ "; " ++ incr ++ " = 0; " ++ record ++ " = new stdClass(); " ++
    record ++ "->self = &" ++ record ++ "; " ++ record ++ "->length = count(" ++ it ++ "); " ++
    record ++ "->index = 1; " ++ record ++ "->index0 = 0; " ++
    record ++ "->revindex = " ++ record ++ "->length; " ++
    record ++ "->revindex0 = " ++ record ++ "->length - 1;")

/-- Bring the record of a loop up to date at the start of an iteration. -/
def refresh (l : Loop) : String :=
  let incr := var l.stem "incr"
  let record := var l.stem "loop"
  sect (record ++ "->first = (" ++ incr ++ " == 0); " ++ record ++ "->index = " ++ incr ++ " + 1; " ++
    record ++ "->index0 = " ++ incr ++ "; " ++
    record ++ "->revindex = " ++ record ++ "->length - " ++ incr ++ "; " ++
    record ++ "->revindex0 = " ++ record ++ "->length - (" ++ incr ++ " + 1); " ++
    record ++ "->last = (" ++ incr ++ " == (" ++ record ++ "->length - 1));")

/-- Start each iteration. -/
def opening (l : Loop) : String :=
  let source := if l.recorded then var l.stem "iterator" else l.source
  let key := match l.key with
    | some k => "$" ++ k ++ " => "
    | none => ""
  sect ("foreach (" ++ source ++ " as " ++ key ++ "$" ++ l.target ++ ") \x7b")

/-- Close the guard and the loop. A branch for nothing to loop over has closed
both, and is itself what is left to close. -/
def closing (l : Loop) : String :=
  if l.branched then close
  else
    (if l.guard.isSome then close else "") ++
      (if l.recorded then sect (var l.stem "incr++; \x7d") else close)

/-- The code of a loop. -/
def code (l : Loop) : String :=
  (if l.branched then sect (var l.stem "iterated = false;") else "") ++
    (if l.recorded then l.prologue else "") ++
    l.opening ++
    (if l.recorded then l.refresh else "") ++
    (match l.guard with
      | some g => ifOpen g
      | none => "") ++
    (if l.branched then sect (var l.stem "iterated = true;") else "") ++
    l.body ++ l.closing

/-- Close a loop inside its body and open the branch for nothing to loop over. -/
def branch (stem : String) (guarded recorded : Bool) : String :=
  sect ((if guarded then "\x7d " else "") ++
    (if recorded then var stem "incr++; " else "") ++
    "\x7d if (!" ++ var stem "iterated" ++ ") \x7b")

end Loop

/-! ### Macros -/

namespace Macro

/-- Where a macro is kept. -/
def reference (name : String) : String := "$this->macros[" ++ Text.quote name ++ "]"

/-- Take a parameter from the arguments by position or by name, else do what
`otherwise` says. -/
def parameter (index : Nat) (name otherwise : String) : String :=
  let i := toString index
  "if (isset($__p[" ++ i ++ "])) \x7b $" ++ name ++ " = $__p[" ++ i ++ "]; \x7d else \x7b " ++
    "if (array_key_exists(\"" ++ name ++ "\", $__p)) \x7b $" ++ name ++ " = $__p[\"" ++ name ++
    "\"]; \x7d else \x7b " ++ otherwise ++ " \x7d \x7d "

/-- Take the default of a parameter. -/
def fallback (name value : String) : String := "$" ++ name ++ " = " ++ value ++ ";"

/-- Refuse a call that leaves out a parameter. -/
def refuse (macroName name : String) : String :=
  "throw new \\Phalcon\\Mvc\\View\\Exception(\"Macro '" ++ macroName ++
    "' was called without parameter: " ++ name ++ "\");"

/-- The code of a macro definition; `parameters` is the code of each of them. -/
def code (name : String) (parameters : List String) (body : String) : String :=
  let ref := reference name
  let opening :=
    if parameters.isEmpty then "<?php " ++ ref ++ " = function() \x7b ?>"
    else "<?php " ++ ref ++ " = function($__p = []) \x7b " ++ String.join parameters ++ "?>"
  opening ++ body ++ sect ("\x7d; " ++ ref ++ " = \\Closure::bind(" ++ ref ++ ", $this);")

end Macro

/-! ### Fragment caches -/

/-- The code of a cached fragment; fragments with the same key share a slot. -/
def cached (key : String) (lifetime : Option String) (body : String) : String :=
  let slot := "$_cache[" ++ key ++ "]"
  let found := "$_cacheKey[" ++ key ++ "]"
  let start := match lifetime with
    | some l => commas [key, l]
    | none => key
  let save := match lifetime with
    | some l => commas [key, "null", l]
    | none => key
  sect (slot ++ " = $this->di->get('viewCache'); " ++ found ++ " = " ++
      apply (slot ++ "->start") start ++ "; if (" ++ found ++ " === null) \x7b") ++
    body ++
    sect (apply (slot ++ "->save") save ++ "; \x7d else \x7b echo " ++ found ++ "; \x7d")

end Code
end Stencil
