/-
# Code of built-in calls and filters

Functions and filters that every template may use. A function that is neither
built in nor a tag helper is a macro of the template.

Key definitions:
* `Code.call`: the code of a call by name.
* `Code.filter?`: the code of a built-in filter.
-/
import Stencil.Code.Operator

namespace Stencil
namespace Code

/-- A tag helper: its method, and whether it takes its arguments as one array. -/
structure TagHelper where
  name : String
  method : String
  asArray : Bool

/-- The tag helpers templates may call as functions. -/
def tagHelpers : List TagHelper :=
  [⟨"link_to", "linkTo", true⟩, ⟨"image", "image", true⟩, ⟨"form", "form", true⟩,
    ⟨"end_form", "endForm", false⟩, ⟨"form_legacy", "formLegacy", false⟩,
    ⟨"select", "select", true⟩, ⟨"select_static", "selectStatic", true⟩,
    ⟨"submit_button", "submitButton", true⟩, ⟨"radio_field", "radioField", true⟩,
    ⟨"check_field", "checkField", true⟩, ⟨"file_field", "fileField", true⟩,
    ⟨"hidden_field", "hiddenField", true⟩, ⟨"password_field", "passwordField", true⟩,
    ⟨"text_area", "textArea", true⟩, ⟨"text_field", "textField", true⟩,
    ⟨"email_field", "emailField", true⟩, ⟨"date_field", "dateField", true⟩,
    ⟨"tel_field", "telField", true⟩, ⟨"numeric_field", "numericField", true⟩,
    ⟨"image_input", "imageInput", true⟩, ⟨"javascript_include", "javascriptInclude", false⟩,
    ⟨"stylesheet_link", "stylesheetLink", false⟩, ⟨"get_title", "getTitle", false⟩,
    ⟨"get_doctype", "getDoctype", false⟩, ⟨"friendly_title", "friendlyTitle", false⟩]

/-- A call of a tag helper. -/
def TagHelper.code (h : TagHelper) (arguments : String) : String :=
  apply ("$this->tag->" ++ h.method) (if h.asArray then "[" ++ arguments ++ "]" else arguments)

/-- A call of a macro. -/
def macroCall (name arguments : String) : String :=
  "$this->callMacro('" ++ name ++ "', [" ++ arguments ++ "])"

/-- A call of a built-in function other than the parent block's. -/
def builtin? (name arguments : String) : Option String :=
  match name with
  | "content" => some "$this->getContent()"
  | "get_content" => some "$this->getContent()"
  | "partial" => some (apply "$this->partial" arguments)
  | "url" => some (apply "$this->url->get" arguments)
  | "static_url" => some (apply "$this->url->getStatic" arguments)
  | "date" => some (apply "date" arguments)
  | "time" => some "time()"
  | "dump" => some (apply "var_dump" arguments)
  | "version" => some "\\Phalcon\\Version::get()"
  | "version_id" => some "\\Phalcon\\Version::getId()"
  | "preload" => some (apply "$this->preload" arguments)
  | "constant" => some (apply "constant" arguments)
  | _ => (tagHelpers.find? (·.name == name)).map (·.code arguments)

/-- A call by name: built in, or of a macro. -/
def call (name arguments : String) : String :=
  (builtin? name arguments).getD (macroCall name arguments)

/-- Filters that apply one function to their arguments. -/
def filterFunctions : List (String × String) :=
  [("length", "$this->length"), ("e", "$this->escaper->escapeHtml"),
    ("escape", "$this->escaper->escapeHtml"), ("escape_css", "$this->escaper->escapeCss"),
    ("escape_js", "$this->escaper->escapeJs"), ("escape_attr", "$this->escaper->escapeHtmlAttr"),
    ("trim", "trim"), ("left_trim", "ltrim"), ("right_trim", "rtrim"),
    ("striptags", "strip_tags"), ("url_encode", "urlencode"), ("slashes", "addslashes"),
    ("stripslashes", "stripslashes"), ("nl2br", "nl2br"), ("keys", "array_keys"),
    ("lower", "\\Phalcon\\Text::lower"), ("lowercase", "\\Phalcon\\Text::lower"),
    ("upper", "\\Phalcon\\Text::upper"), ("uppercase", "\\Phalcon\\Text::upper"),
    ("capitalize", "ucwords"), ("sort", "$this->sort"), ("json_encode", "json_encode"),
    ("json_decode", "json_decode"), ("format", "sprintf"), ("abs", "abs"),
    ("slice", "$this->slice"), ("convert_encoding", "$this->convertEncoding")]

/-- A built-in filter on the operand `l`, given the code of its arguments; the
filter that joins is not among them. -/
def filter? (name l arguments : String) : Option String :=
  if name = "default" then
    some ("(empty(" ++ l ++ ") ? (" ++ arguments ++ ") : (" ++ l ++ "))")
  else (filterFunctions.lookup name).map (apply · arguments)

end Code
end Stencil
