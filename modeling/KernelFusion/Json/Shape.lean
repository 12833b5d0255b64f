import KernelFusion.Data.IdMap
import KernelFusion.Data.Tables
import KernelFusion.Json.Number
import KernelFusion.Json.Text

/-!
# Shapes of data in JSON

How records, choices, lists and maps are laid out in JSON, and how they are read back. Reading is
given the number of container levels that may still be opened, its room; a container without room
is refused. Members that a record does not have are skipped whatever is in them.
-/

namespace KernelFusion.Json

/-- A reader of values: it takes the room that is left. -/
abbrev Reader (α : Type) := Nat → Json → Option α

/-- The number of nested containers that can be read. -/
def fullRoom : Nat := 127

/-- A key or variant written in ASCII. -/
def name (s : String) : Bytes := Bytes.ofString s

/-- A record: its members under their names. -/
def record (members : List (String × Json)) : Json :=
  .object (members.map (fun m => (name m.1, m.2)))

/-- A choice without data. -/
def unitVariant (v : String) : Json := .string (name v)

/-- A choice with data. -/
def dataVariant (v : String) (data : Json) : Json := .object [(name v, data)]

/-- A value that may be missing. -/
def ofOption {α : Type} (f : α → Json) : Option α → Json
  | none => .null
  | some a => f a

/-- A map keyed by number; the keys are written as strings. -/
def ofIdMap {α : Type} (f : α → Json) (m : IdMap α) : Json :=
  .object (m.entries.map (fun e => (Bytes.ofAscii (Nat.toDigits 10 e.1.toNat), f e.2)))

/-- String tables. -/
def ofTables (t : Tables) : Json :=
  .object (t.entries.map (fun e => (escape (Bytes.ofString e.1), .array (e.2.map ofString))))

/-- Put the value of a member in its place, unless the place is taken. -/
def fillSlot? (key : String) (value : Json) :
    List (String × Option Json) → Option (List (String × Option Json))
  | [] => some []
  | (field, slot) :: rest =>
    if field = key then
      match slot with
      | some _ => none
      | none => some ((field, some value) :: rest)
    else (fillSlot? key value rest).map ((field, slot) :: ·)

/-- Put all members in their places. Unknown members have none. -/
def fillSlots? (slots : List (String × Option Json)) :
    List (Bytes × Json) → Option (List (String × Option Json))
  | [] => some slots
  | (key, value) :: rest =>
    match bodyText? key with
    | none => none
    | some key => (fillSlot? key value slots).bind (fillSlots? · rest)

/-- The values of the fields of a record, in order, and the room for them. A record is an object, in
which fields may be missing, or the array of all fields in order. -/
def fields? (fields : List String) : Reader (Nat × List (Option Json))
  | 0, _ => none
  | room + 1, object members =>
    (fillSlots? (fields.map (·, none)) members).map (fun slots => (room, slots.map (·.2)))
  | room + 1, array items =>
    if items.length = fields.length then some (room, items.map some) else none
  | _ + 1, _ => none

/-- The variant of a choice, its data if there are any, and the room for them. -/
def variant? : Reader (Nat × String × Option Json)
  | room, string body => (bodyText? body).map (room, ·, none)
  | room + 1, object [(key, data)] => (bodyText? key).map (room, ·, some data)
  | _, _ => none

/-- A choice without data: its name, alone or with a null. -/
def isUnit : Option Json → Bool
  | none | some null => true
  | some _ => false

/-- A truth value. -/
def bool? : Json → Option Bool
  | bool value => some value
  | _ => none

/-- A list of values. -/
def list? {α : Type} (item : Reader α) : Reader (List α)
  | room + 1, array items => items.mapM (item room)
  | _, _ => none

/-- A field that may be missing or null. -/
def optional? {α : Type} (value : Reader α) (room : Nat) : Option Json → Option (Option α)
  | none | some null => some none
  | some j => (value room j).map some

/-- The number of a key. It is written without superfluous zeros and without escapes. -/
def keyNumber? (key : Bytes) : Option UInt32 := (Json.number key).uint32?

/-- A map keyed by number. A later entry replaces an earlier one with its key. -/
def idMap? {α : Type} (value : Reader α) : Reader (IdMap α)
  | room + 1, object members =>
    (members.mapM (fun m => (keyNumber? m.1).bind (fun k => (value room m.2).map (k, ·)))).map
      IdMap.ofList
  | _, _ => none

/-- String tables. A later table replaces an earlier one of its name, in the place of that. -/
def tables? : Reader Tables
  | room + 1, object members =>
    (members.mapM (fun m =>
      (bodyText? m.1).bind (fun k => (list? (fun _ => string?) room m.2).map (k, ·)))).map
      Tables.ofList
  | _, _ => none

end KernelFusion.Json
