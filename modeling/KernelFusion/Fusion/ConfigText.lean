import KernelFusion.Bundle.Words
import KernelFusion.Fusion.Emit
import KernelFusion.Toml.Document

/-!
# Settings in TOML

Settings are read from a TOML document. Keys that are missing keep the standard setting, keys that
are not known are ignored. A type is a word, or a table whose only key is the word of the type and
whose value has the parts of the type.
-/

namespace KernelFusion

/-- Why a text gives no settings. -/
inductive ConfigError where
  /-- The text is no TOML document, or a setting has a value of the wrong kind. -/
  | parse
  /-- The type of coordinates is not an integer type. -/
  | coordinateType (ty : Ty)
deriving DecidableEq

/-- The message of a configuration error. What is wrong with a document is not told. -/
def ConfigError.message : ConfigError → String
  | parse => "invalid fusion config"
  | coordinateType ty => "coordinate type must be an integer type, got " ++ ty.text

namespace Toml

/-- Whether a value is a list or table without content, which stands for no data. -/
def isNoData : Toml → Bool
  | array [] | inline _ [] | table _ [] => true
  | _ => false

/-- A natural number. -/
def count? : Toml → Option UInt64
  | integer n => if 0 ≤ n then some n.toNat.toUInt64 else none
  | _ => none

mutual

/-- The type that a value stands for. A table has no key beside the word. -/
def ty? : Toml → Option Ty
  | string w => Ty.scalarOfWord? w
  | inline _ [(w, data)] | table _ [(w, data)] => typeWith? w data
  | _ => none

/-- The type with a word and the value of its parts. -/
def typeWith? (w : String) : Toml → Option Ty
  | string s => if w = "Ptr" then (ty? (string s)).map .ptr else none
  | array items =>
    if w = "Vector" then vectorOfItems? items
    else if isNoData (array items) then Ty.scalarOfWord? w
    else none
  | inline d entries =>
    if w = "Ptr" then (ty? (inline d entries)).map .ptr
    else if w = "Vector" then vectorOfEntries? entries
    else if isNoData (inline d entries) then Ty.scalarOfWord? w
    else none
  | table o entries =>
    if w = "Ptr" then (ty? (table o entries)).map .ptr
    else if w = "Vector" then vectorOfEntries? entries
    else if isNoData (table o entries) then Ty.scalarOfWord? w
    else none
  | _ => none

/-- The vector type with parts in a list. -/
def vectorOfItems? : List Toml → Option Ty
  | element :: count :: _ =>
    match ty? element, count? count with
    | some e, some c => some (.vector e c)
    | _, _ => none
  | _ => none

/-- The vector type with parts in a table that has no other keys. -/
def vectorOfEntries? : List (String × Toml) → Option Ty
  | [("element", element), ("count", count)] | [("count", count), ("element", element)] =>
    match ty? element, count? count with
    | some e, some c => some (.vector e c)
    | _, _ => none
  | _ => none

end

end Toml

namespace FusionConfig

/-- A setting: the standard one if its key is missing. -/
def setting? {α : Type} (standard : α) (read : Toml → Option α) : Option Toml → Option α
  | none => some standard
  | some t => read t

/-- The text of a string value. -/
def text? : Toml → Option String
  | .string s => some s
  | _ => none

/-- The truth value of a boolean. -/
def flag? : Toml → Option Bool
  | .boolean b => some b
  | _ => none

/-- The settings in a table. -/
def ofEntries? (entries : Toml.Entries) : Option FusionConfig := do
  let ty ← setting? standard.coordinateType Toml.ty? (Toml.find? "coordinate_type" entries)
  let label ← setting? standard.entryLabel text? (Toml.find? "entry_label" entries)
  let verify ← setting? standard.verify flag? (Toml.find? "verify" entries)
  some ⟨ty, label, verify⟩

/-- The settings in a TOML document. Coordinates must have an integer type. -/
def ofText (text : String) : Except ConfigError FusionConfig :=
  match (Toml.parse? text).bind ofEntries? with
  | none => .error .parse
  | some config =>
    if config.coordinateType.isInteger then .ok config
    else .error (.coordinateType config.coordinateType)

end FusionConfig

end KernelFusion
