import ComponentStream.Number.Lenient
import ComponentStream.Registry.Vocabulary

/-!
# The standard vocabulary: renderers

Every standard type turns its properties into elements.  Properties that failed their schema reach the renderer
as they were sent, so each renderer works on arbitrary JSON: a missing property has a substitute, a property
that counts as false is replaced by its default, and a value that has to be taken apart and cannot be makes the
renderer give up.
-/

namespace ComponentStream.Registry.Standard

open Json (Value)
open Render (Context Failure Handler Output box label)

/-! ### Reading properties -/

/-- A property, or a substitute when it is absent. -/
def prop (props : Assoc Value) (name : String) (absent : Value) : Value := (Assoc.get? name props).getD absent

/-- A property, or a default when it is absent or counts as false. -/
def propOr (props : Assoc Value) (name : String) (standard : Value) : Value :=
  let v := prop props name .null
  if v.truthy then v else standard

def flag (props : Assoc Value) (name : String) : Bool := (prop props name .null).truthy

/-- A value as text; one with too long a whole number in it cannot be shown. -/
def shown (v : Value) : Except Failure String :=
  match v.display? with
  | some s => .ok s
  | none => .error .unusableProps

/-- The items of a list to be gone through: those of an array, the characters of a string, the names in an
object; what counts as false has none, and other values cannot be gone through. -/
def iterate (v : Value) : Except Failure (List Value) :=
  if v.truthy then
    match v with
    | .arr vs => .ok vs
    | .str s => .ok (s.toList.map fun c => .str (String.singleton c))
    | .obj fields => .ok (fields.map fun f => .str f.1)
    | _ => .error .unusableProps
  else .ok []

/-- A member that an item has to have. -/
def member (name : String) (item : Value) : Except Failure Value :=
  match item.field? name with
  | some v => .ok v
  | none => .error .unusableProps

/-- A heading over some content, left out when the property counts as false. -/
def captioned (tag : String) (props : Assoc Value) (name : String) : List Output :=
  if flag props name then [label tag (prop props name .null)] else []

/-! ### Renderers -/

/-- A block of text around the children. -/
def renderText (props : Assoc Value) (ctx : Context) : Except Failure Output := do
  let text ← shown (prop props "text" (.str ""))
  return .element "div" [] (.str text) ctx.children []

/-- A heading of some level, the second by default. -/
def renderHeading (props : Assoc Value) : Except Failure Output := do
  let level ← shown (propOr props "level" (.int 2))
  let text ← shown (prop props "text" (.str ""))
  return label ("h" ++ level) (.str text)

/-- A button that sends its payload, or its label if it has none, unless it is disabled. -/
def renderButton (props : Assoc Value) (ctx : Context) : Output :=
  let text := prop props "label" (.str "")
  let disabled := flag props "disabled"
  let click := if disabled then Handler.silent
    else .fixed ctx.nodeId (propOr props "eventType" (.str "click"))
      (propOr props "payload" (.obj [("label", text)]))
  .element "button" [("disabled", .bool disabled), ("variant", propOr props "variant" (.str "primary"))] text []
    [("click", click)]

def renderTextInput (props : Assoc Value) (ctx : Context) : Output :=
  let field := Output.element (if flag props "multiline" then "textarea" else "input")
    [("value", prop props "value" .null), ("placeholder", prop props "placeholder" .null)] .null []
    [("change", .keyed ctx.nodeId "input" "value")]
  box "label" [] (captioned "span" props "label" ++ [field])

def renderImage (props : Assoc Value) : Output :=
  box "img" [("src", prop props "src" .null), ("alt", propOr props "alt" (.str ""))] []

def renderPair (item : Value) : Except Failure Output := do
  let key ← member "key" item
  let value ← member "value" item
  return box "div" [] [label "dt" key, label "dd" value]

def renderKeyValueList (props : Assoc Value) : Except Failure Output := do
  let items ← iterate (prop props "items" .null)
  return box "dl" [] (← items.mapM renderPair)

def renderCard (props : Assoc Value) (ctx : Context) : Output :=
  box "section" [("variant", propOr props "variant" (.str "outlined"))]
    (captioned "h3" props "title" ++ captioned "p" props "subtitle" ++ ctx.children)

def renderAlert (props : Assoc Value) (ctx : Context) : Output :=
  let dismiss := Output.element "button" [] (.str "×") []
    [("click", .fixed ctx.nodeId (.str "click") (.obj [("action", .str "dismiss")]))]
  box "div" [("role", .str "alert"), ("severity", propOr props "severity" (.str "info"))]
    (label "span" (prop props "message" (.str "")) :: if flag props "dismissible" then [dismiss] else [])

def renderBadge (props : Assoc Value) : Output :=
  .element "span" [("color", propOr props "color" (.str "gray")), ("size", propOr props "size" (.str "md"))]
    (prop props "text" (.str "")) [] []

/-- The entry of a row in a column, empty if the row has none; only a string names an entry. -/
def cell (row column : Value) : Except Failure Output :=
  match row with
  | .obj entries => do
    match ← member "key" column with
    | .str key => return label "td" (.str (← shown ((Assoc.get? key entries).getD (.str ""))))
    | .arr _ => .error .unusableProps
    | .obj _ => .error .unusableProps
    | _ => return label "td" (.str "")
  | _ => .error .unusableProps

/-- A row of a table; every other one is striped if stripes are asked for. -/
def renderRow (columns : List Value) (striped : Bool) (index : Nat) (row : Value) : Except Failure Output := do
  let cells ← columns.mapM (cell row)
  return box "tr" [("striped", .bool (striped && index % 2 == 1))] cells

/-- The rows of a table, the first of which has the given index. -/
def renderRows (columns : List Value) (striped : Bool) : Nat → List Value → Except Failure (List Output)
  | _, [] => .ok []
  | index, row :: rows => do
    let first ← renderRow columns striped index row
    return first :: (← renderRows columns striped (index + 1) rows)

def renderTable (props : Assoc Value) : Except Failure Output := do
  let columns ← iterate (prop props "columns" .null)
  let heads ← columns.mapM fun column => return label "th" (← member "label" column)
  let rows ← iterate (prop props "rows" .null)
  let body ← renderRows columns (flag props "striped") 0 rows
  return box "table" [] [box "thead" [] [box "tr" [] heads], box "tbody" [] body]

def renderCheckbox (props : Assoc Value) (ctx : Context) : Output :=
  let tick := Output.element "input"
    [("type", .str "checkbox"), ("checked", .bool (flag props "checked")),
      ("disabled", .bool (flag props "disabled"))] .null [] [("change", .flagged ctx.nodeId "select" "checked")]
  box "label" [] [tick, label "span" (prop props "label" (.str ""))]

def renderOption (item : Value) : Except Failure Output := do
  let value ← member "value" item
  let text ← member "label" item
  return .element "option" [("value", value)] text [] []

def renderSelect (props : Assoc Value) (ctx : Context) : Except Failure Output := do
  let placeholder :=
    if flag props "placeholder" then
      [Output.element "option" [("value", .str ""), ("disabled", .bool true)] (prop props "placeholder" .null) [] []]
    else []
  let options ← (← iterate (prop props "options" .null)).mapM renderOption
  let select := Output.element "select"
    [("value", prop props "value" .null), ("disabled", .bool (flag props "disabled"))] .null
    (placeholder ++ options) [("change", .keyed ctx.nodeId "select" "value")]
  return box "label" [] (captioned "span" props "label" ++ [select])

/-- The double that a value stands for: a number, a boolean or a numeral of any script. -/
def toNumber : Value → Except Failure Float
  | .float x => .ok x
  | .int n => finite n
  | .bool b => .ok (if b then 1 else 0)
  | .str s =>
    match Number.Lenient.anyFloat? s.toList with
    | some x => .ok x
    | none => .error .unusableProps
  | _ => .error .unusableProps
where
  /-- A whole number as a double, if one can hold it. -/
  finite (n : Int) : Except Failure Float :=
    match Number.ofInt? n with
    | some x => .ok x
    | none => .error .unusableProps

/-- The double that a value is to be divided by: a number or a boolean. -/
def toDivisor : Value → Except Failure Float
  | .str _ => .error .unusableProps
  | v => toNumber v

/-- A share in percent, kept between nought and a hundred; what is no number counts as nought. -/
def withinHundred (share : Float) : Float :=
  let share := if 0 < share then share else 0
  if share < 100 then share else 100

/-- The share of a maximum in percent; there is none of zero. -/
def percentage (value maximum : Float) : Except Failure Float :=
  if maximum == 0 then .error .unusableProps else .ok (withinHundred (value / maximum * 100))

/-- The nearest whole number, which only a finite double has. -/
def rounded (x : Float) : Except Failure Int :=
  match Number.round? x with
  | some n => .ok n
  | none => .error .unusableProps

def percentText (digits : List Char) : String := String.ofList (digits ++ ['%'])

/-- The percentage in words, if it is asked for. -/
def renderReading (props : Assoc Value) (share : Float) : Except Failure (List Output) :=
  if flag props "showValue" then do
    let n ← rounded share
    return [label "span" (.str (percentText (Json.intChars n)))]
  else .ok []

/-- A bar that shows how much of the maximum is reached. -/
def renderProgress (props : Assoc Value) : Except Failure Output := do
  let value ← toNumber (prop props "value" (.int 0))
  let maximum ← toDivisor (propOr props "max" (.int 100))
  let share ← percentage value maximum
  let reading ← renderReading props share
  let bar := box "div" [("width", .str (percentText (Json.displayFormat.write share))),
    ("color", propOr props "color" (.str "blue"))] []
  return box "div" [("role", .str "progressbar"), ("value", .float share)]
    (captioned "span" props "label" ++ reading ++ [bar])

def render : Standard → Render.Renderer
  | .text, props, ctx => renderText props ctx
  | .heading, props, _ => renderHeading props
  | .button, props, ctx => .ok (renderButton props ctx)
  | .textInput, props, ctx => .ok (renderTextInput props ctx)
  | .image, props, _ => .ok (renderImage props)
  | .keyValueList, props, _ => renderKeyValueList props
  | .card, props, ctx => .ok (renderCard props ctx)
  | .alert, props, ctx => .ok (renderAlert props ctx)
  | .badge, props, _ => .ok (renderBadge props)
  | .table, props, _ => renderTable props
  | .checkbox, props, ctx => .ok (renderCheckbox props ctx)
  | .select, props, ctx => renderSelect props ctx
  | .progress, props, _ => renderProgress props

/-- The schema of a standard type as a checker, which never fails. -/
def checker (s : Standard) : Checker := fun props =>
  match s.schema.check props with
  | .ok kept => .kept kept
  | .error faults => .refused faults

def entry (s : Standard) : Entry := ⟨s.name, s.render, some s.checker, s.description, s.category⟩

def vocabulary : List Entry := all.map entry

end ComponentStream.Registry.Standard
