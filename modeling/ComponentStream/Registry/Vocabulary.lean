import ComponentStream.Registry.Basic
import ComponentStream.Registry.Schema

/-!
# The standard vocabulary: schemas

The thirteen component types that every host gets without further work, with the properties they know.
-/

namespace ComponentStream.Registry

open Protocol (ActionType)

/-- The standard component types. -/
inductive Standard where
  | text | heading | button | textInput | image | keyValueList | card | alert | badge | table | checkbox
  | select | progress
  deriving DecidableEq, Repr

namespace Standard

/-- The standard component types in the order in which they are registered. -/
def all : List Standard :=
  [.text, .heading, .button, .textInput, .image, .keyValueList, .card, .alert, .badge, .table, .checkbox,
    .select, .progress]

def name : Standard → String
  | .text => "Text"
  | .heading => "Heading"
  | .button => "Button"
  | .textInput => "TextInput"
  | .image => "Image"
  | .keyValueList => "KeyValueList"
  | .card => "Card"
  | .alert => "Alert"
  | .badge => "Badge"
  | .table => "Table"
  | .checkbox => "Checkbox"
  | .select => "Select"
  | .progress => "Progress"

def ofName? (s : String) : Option Standard := all.find? (·.name = s)

def description : Standard → String
  | .text => "Plain text block"
  | .heading => "Section heading (level 1-6)"
  | .button => "Clickable button that sends an action (default 'click') with an optional payload"
  | .textInput => "Single or multi-line text field; sends 'input' actions with the value"
  | .image => "Image from a URL"
  | .keyValueList => "List of key/value pairs"
  | .card => "Container card with optional title and subtitle"
  | .alert => "Status message (info, success, warning, error), optionally dismissible"
  | .badge => "Small colored label"
  | .table => "Data table with columns and rows"
  | .checkbox => "Checkbox; sends 'select' actions with the checked state"
  | .select => "Dropdown of options; sends 'select' actions with the chosen value"
  | .progress => "Progress bar"

/-- Types that send actions are interactable, the others generative. -/
def category : Standard → Category
  | .button => .interactable
  | .textInput => .interactable
  | .checkbox => .interactable
  | .select => .interactable
  | _ => .generative

def needed (name : String) (kind : Kind) : String × Bool × Kind := (name, true, kind)

def allowed (name : String) (kind : Kind) : String × Bool × Kind := (name, false, kind)

def schema : Standard → Schema
  | .text => ⟨"TextProps", [needed "text" .string]⟩
  | .heading => ⟨"HeadingProps", [needed "text" .string, allowed "level" .level]⟩
  | .button => ⟨"ButtonProps",
      [needed "label" .string, allowed "eventType" (.choice (ActionType.all.map ActionType.name)),
        allowed "payload" .dictionary, allowed "disabled" .boolean,
        allowed "variant" (.choice ["primary", "secondary"])]⟩
  | .textInput => ⟨"TextInputProps",
      [allowed "label" .string, allowed "placeholder" .string, allowed "value" .string,
        allowed "multiline" .boolean]⟩
  | .image => ⟨"ImageProps", [needed "src" .string, allowed "alt" .string]⟩
  | .keyValueList => ⟨"KeyValueListProps",
      [needed "items" (.list (.record "KeyValueItem" [needed "key" .string, needed "value" .string]))]⟩
  | .card => ⟨"CardProps",
      [allowed "title" .string, allowed "subtitle" .string,
        allowed "variant" (.choice ["outlined", "elevated", "filled"])]⟩
  | .alert => ⟨"AlertProps",
      [needed "message" .string, allowed "severity" (.choice ["info", "success", "warning", "error"]),
        allowed "dismissible" .boolean]⟩
  | .badge => ⟨"BadgeProps",
      [needed "text" .string,
        allowed "color" (.choice ["gray", "red", "yellow", "green", "blue", "purple"]),
        allowed "size" (.choice ["sm", "md", "lg"])]⟩
  | .table => ⟨"TableProps",
      [needed "columns" (.list (.record "TableColumn" [needed "key" .string, needed "label" .string])),
        needed "rows" (.list .cells), allowed "striped" .boolean]⟩
  | .checkbox => ⟨"CheckboxProps",
      [needed "label" .string, allowed "checked" .boolean, allowed "disabled" .boolean]⟩
  | .select => ⟨"SelectProps",
      [allowed "label" .string,
        needed "options" (.list (.record "SelectOption" [needed "value" .string, needed "label" .string])),
        allowed "value" .string, allowed "placeholder" .string, allowed "disabled" .boolean]⟩
  | .progress => ⟨"ProgressProps",
      [needed "value" .number, allowed "max" .number, allowed "label" .string, allowed "showValue" .boolean,
        allowed "color" (.choice ["blue", "green", "yellow", "red"])]⟩

end Standard

end ComponentStream.Registry
