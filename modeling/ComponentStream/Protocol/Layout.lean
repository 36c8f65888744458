import ComponentStream.Shape.Strict

/-!
# Layout hints and style

A component may carry hints for a flexible box and raw style overrides.  Every hint may be absent; a style
value is a string, a whole number or a double and stays the kind it was sent as.
-/

namespace ComponentStream.Protocol

open Json (Value)
open Shape (Check)

/-- Alignment across the main axis. -/
inductive Align where
  | atStart | atCenter | atEnd | stretch | baseline
  deriving DecidableEq, Repr

def Align.all : List Align := [.atStart, .atCenter, .atEnd, .stretch, .baseline]

def Align.name : Align → String
  | .atStart => "start"
  | .atCenter => "center"
  | .atEnd => "end"
  | .stretch => "stretch"
  | .baseline => "baseline"

/-- Distribution along the main axis. -/
inductive Justify where
  | atStart | atCenter | atEnd | between | around | evenly
  deriving DecidableEq, Repr

def Justify.all : List Justify := [.atStart, .atCenter, .atEnd, .between, .around, .evenly]

def Justify.name : Justify → String
  | .atStart => "start"
  | .atCenter => "center"
  | .atEnd => "end"
  | .between => "between"
  | .around => "around"
  | .evenly => "evenly"

/-- The main axis and its direction. -/
inductive Direction where
  | row | column | rowReverse | columnReverse
  deriving DecidableEq, Repr

def Direction.all : List Direction := [.row, .column, .rowReverse, .columnReverse]

def Direction.name : Direction → String
  | .row => "row"
  | .column => "column"
  | .rowReverse => "row-reverse"
  | .columnReverse => "column-reverse"

/-- Hints for a flexible box. -/
structure Layout where
  flex : Option Float
  align : Option Align
  justify : Option Justify
  gap : Option Float
  direction : Option Direction
  wrap : Option Bool
  deriving DecidableEq

/-- A style value. -/
inductive StyleValue where
  | text (s : String)
  | whole (n : Int)
  | real (x : Float)
  deriving DecidableEq

def StyleValue.toJson : StyleValue → Value
  | .text s => .str s
  | .whole n => .int n
  | .real x => .float x

/-- The layout that an object describes; unknown members are ignored. -/
def Layout.check (v : Value) : Check Layout :=
  (Shape.members (.notRecord "Layout") v).andThen fun fields =>
    ((Shape.optional fields "flex" Shape.Strict.number).both
      ((Shape.optional fields "align" (Shape.oneOf Align.all Align.name)).both
        ((Shape.optional fields "justify" (Shape.oneOf Justify.all Justify.name)).both
          ((Shape.optional fields "gap" Shape.Strict.number).both
            ((Shape.optional fields "direction" (Shape.oneOf Direction.all Direction.name)).both
              (Shape.optional fields "wrap" Shape.Strict.boolean)))))).map
    fun (flex, align, justify, gap, direction, wrap) => ⟨flex, align, justify, gap, direction, wrap⟩

/-- A style value; anything else fails as each of the three kinds in turn. -/
def StyleValue.check : Value → Check StyleValue
  | .str s => .ok (.text s)
  | .int n => .ok (.whole n)
  | .float x => .ok (.real x)
  | _ => .error
    [⟨[.key "str"], .notString⟩, ⟨[.key "int"], .notInteger⟩, ⟨[.key "float"], .notNumber⟩]

/-- The style that an object describes. -/
def checkStyle (v : Value) : Check (Assoc StyleValue) :=
  (Shape.members .notDictionary v).andThen (Shape.entries StyleValue.check)

end ComponentStream.Protocol
