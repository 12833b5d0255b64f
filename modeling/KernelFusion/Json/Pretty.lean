import KernelFusion.Json.Tree

/-!
# Indented JSON

The text of a tree on several lines: every item and every member has a line of its own, two spaces
deeper than its container. Containers without content take one line. Each function writes in front
of the bytes that follow, so writing takes a step for each byte of the text.
-/

namespace KernelFusion.Json

/-- A line break and the indentation of a nesting level, before the bytes that follow. -/
def newline (level : Nat) (next : Bytes) : Bytes :=
  0x0a :: (List.replicate (2 * level) 0x20 ++ next)

/-- A string between its quotes, before the bytes that follow. -/
def quote (body next : Bytes) : Bytes := 0x22 :: (body ++ 0x22 :: next)

mutual

/-- The text of a tree at a nesting level, before the bytes that follow. -/
def prettyAt (level : Nat) : Json → (next : Bytes) → Bytes
  | .null, next => Bytes.ofAscii ['n', 'u', 'l', 'l'] ++ next
  | .bool true, next => Bytes.ofAscii ['t', 'r', 'u', 'e'] ++ next
  | .bool false, next => Bytes.ofAscii ['f', 'a', 'l', 's', 'e'] ++ next
  | .number lexeme, next => lexeme ++ next
  | .string body, next => quote body next
  | .array [], next => 0x5b :: 0x5d :: next
  | .array (item :: items), next =>
    0x5b :: newline (level + 1) (prettyAt (level + 1) item
      (prettyItems (level + 1) items (newline level (0x5d :: next))))
  | .object [], next => 0x7b :: 0x7d :: next
  | .object ((key, value) :: members), next =>
    0x7b :: newline (level + 1) (quote key (0x3a :: 0x20 :: prettyAt (level + 1) value
      (prettyMembers (level + 1) members (newline level (0x7d :: next)))))

/-- The text of the items behind the first. -/
def prettyItems (level : Nat) : List Json → (next : Bytes) → Bytes
  | [], next => next
  | item :: items, next =>
    0x2c :: newline level (prettyAt level item (prettyItems level items next))

/-- The text of the members behind the first. -/
def prettyMembers (level : Nat) : List (Bytes × Json) → (next : Bytes) → Bytes
  | [], next => next
  | (key, value) :: members, next =>
    0x2c :: newline level (quote key (0x3a :: 0x20 :: prettyAt level value
      (prettyMembers level members next)))

end

/-- The indented text of a tree. -/
def pretty (j : Json) : Bytes := prettyAt 0 j []

end KernelFusion.Json
