import KernelFusion.Json.Token

/-!
# JSON trees

The tree of a JSON text, with numbers and strings as they are written. It is read by a machine with
a stack of the containers that are still open, so any nesting can be read.
-/

namespace KernelFusion

/-- A JSON text as a tree. -/
inductive Json where
  /-- No value. -/
  | null
  /-- A truth value. -/
  | bool (value : Bool)
  /-- A number, as it is written. -/
  | number (lexeme : Bytes)
  /-- A string, as it is written between the quotes. -/
  | string (body : Bytes)
  /-- A list of values. -/
  | array (items : List Json)
  /-- A list of members, each a key as it is written and a value. -/
  | object (members : List (Bytes × Json))
deriving Inhabited

namespace Json

/-- A container that is still open, with what was read of it, last first. -/
inductive Frame where
  /-- An array that waits for an item. -/
  | array (items : List Json)
  /-- An object that waits for the value of a key. -/
  | object (members : List (Bytes × Json)) (key : Bytes)

/-- What the machine has read and what it waits for. -/
inductive Reading where
  /-- Waits for a value. -/
  | value (outer : List Frame)
  /-- Waits for the first item of an array, or its end. -/
  | firstItem (outer : List Frame)
  /-- Waits for the first key of an object, or its end. -/
  | firstKey (outer : List Frame)
  /-- Waits for another key of an object. -/
  | nextKey (members : List (Bytes × Json)) (outer : List Frame)
  /-- Waits for the colon behind a key. -/
  | colon (members : List (Bytes × Json)) (key : Bytes) (outer : List Frame)
  /-- Has read a value. -/
  | done (value : Json) (outer : List Frame)

/-- Start a value with a token. -/
def startValue? (token : Token) (outer : List Frame) : Option Reading :=
  match token with
  | .null => some (.done .null outer)
  | .bool value => some (.done (.bool value) outer)
  | .number lexeme => some (.done (.number lexeme) outer)
  | .string body => some (.done (.string body) outer)
  | .openArray => some (.firstItem outer)
  | .openObject => some (.firstKey outer)
  | .closeArray | .closeObject | .comma | .colon => none

/-- Read one token. -/
def readToken? (state : Reading) (token : Token) : Option Reading :=
  match state with
  | .value outer => startValue? token outer
  | .firstItem outer =>
    match token with
    | .closeArray => some (.done (.array []) outer)
    | _ => startValue? token (.array [] :: outer)
  | .firstKey outer =>
    match token with
    | .closeObject => some (.done (.object []) outer)
    | .string key => some (.colon [] key outer)
    | _ => none
  | .nextKey members outer =>
    match token with
    | .string key => some (.colon members key outer)
    | _ => none
  | .colon members key outer =>
    match token with
    | .colon => some (.value (.object members key :: outer))
    | _ => none
  | .done value (.array items :: outer) =>
    match token with
    | .comma => some (.value (.array (value :: items) :: outer))
    | .closeArray => some (.done (.array (value :: items).reverse) outer)
    | _ => none
  | .done value (.object members key :: outer) =>
    match token with
    | .comma => some (.nextKey ((key, value) :: members) outer)
    | .closeObject => some (.done (.object ((key, value) :: members).reverse) outer)
    | _ => none
  | .done _ [] => none

/-- Read tokens one after the other. -/
def readTokens? (state : Reading) : List Token → Option Reading
  | [] => some state
  | t :: rest => (readToken? state t).bind (readTokens? · rest)

/-- The tree of a JSON text. -/
def parse? (text : Bytes) : Option Json :=
  match (tokens? text).bind (readTokens? (.value [])) with
  | some (.done value []) => some value
  | _ => none

end Json

end KernelFusion
