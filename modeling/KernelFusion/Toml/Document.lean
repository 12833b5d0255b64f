import KernelFusion.Toml.Number

/-!
# TOML documents

A document is a sequence of lines: a key with a value, the header of a table or of an element of an
array of tables, or nothing, each with a comment behind it if need be.
-/

namespace KernelFusion.Toml

/-- Skip a comment, if there is one. -/
def skipComment : List Char → List Char
  | '#' :: rest => rest.dropWhile isLineChar
  | cs => cs

/-- Skip blanks, line breaks and comments between the items of an array. -/
def skipBetween : (fuel : Nat) → List Char → List Char
  | 0, cs => cs
  | fuel + 1, cs =>
    match skipLines cs with
    | '#' :: rest => skipBetween fuel (rest.dropWhile isLineChar)
    | rest => rest

mutual

/-- A value. The depth is the number of arrays and inline tables around it. Every container takes a
character, so the number of characters bounds the fuel that is needed. -/
def value? : (fuel depth : Nat) → List Char → Reading Toml
  | 0, _, _ => none
  | fuel + 1, depth, cs =>
    match cs with
    | '[' :: rest =>
      if depth + 1 < nestingLimit then
        (items? fuel (depth + 1) rest).map (fun r => (.array r.1, r.2))
      else none
    | '\x7b' :: rest =>
      if depth + 1 < nestingLimit then
        match skipBlanks rest with
        | '\x7d' :: rest => some (.inline false [], rest)
        | rest => (members? fuel (depth + 1) [] rest).map (fun r => (.inline false r.1, r.2))
      else none
    | '"' :: _ | '\'' :: _ => (string? cs).map (fun r => (.string r.1, r.2))
    | _ => scalar? cs

/-- The items of an array, up to its end. -/
def items? : (fuel depth : Nat) → List Char → Reading (List Toml)
  | 0, _, _ => none
  | fuel + 1, depth, cs =>
    match skipBetween cs.length cs with
    | ']' :: rest => some ([], rest)
    | cs =>
      match value? fuel depth cs with
      | none => none
      | some (v, rest) =>
        match skipBetween rest.length rest with
        | ',' :: rest => (items? fuel depth rest).map (fun r => (v :: r.1, r.2))
        | ']' :: rest => some ([v], rest)
        | _ => none

/-- The members of an inline table, up to its end; there is at least one more. -/
def members? : (fuel depth : Nat) → Entries → List Char → Reading Entries
  | 0, _, _, _ => none
  | fuel + 1, depth, entries, cs =>
    match key? cs with
    | some (key, '=' :: rest) =>
      match value? fuel depth (skipBlanks rest) with
      | none => none
      | some (v, rest) =>
        match addInline? v false (key.length != 1) key entries with
        | none => none
        | some entries =>
          match skipBlanks rest with
          | ',' :: rest => members? fuel depth entries rest
          | '\x7d' :: rest => some (entries, rest)
          | _ => none
    | _ => none

end

/-- What follows the end of a line: blanks, a comment, and a line break or the end of the text. -/
def lineEnd? (cs : List Char) : Option (List Char) :=
  match skipComment (skipBlanks cs) with
  | [] => some []
  | rest => lineBreak? rest

/-- Read the line of a key and a value into the table with a header. -/
def assignment? (header : List String) (root : Entries) (cs : List Char) : Reading Entries :=
  match key? cs with
  | some (key, '=' :: rest) =>
    match value? (2 * rest.length + 2) 0 (skipBlanks rest) with
    | none => none
    | some (v, rest) =>
      match addValue? header key v root, lineEnd? rest with
      | some root, some rest => some (root, rest)
      | _, _ => none
  | _ => none

/-- Read the rest of a header: its key, its closing brackets and the end of the line. -/
def header? (closing : List Char) (cs : List Char) : Reading (List String) :=
  match key? cs with
  | none => none
  | some (key, rest) =>
    if closing.isPrefixOf rest then (lineEnd? (rest.drop closing.length)).map (key, ·) else none

/-- Read lines into a document, given the header they stand under. -/
def lines? : (fuel : Nat) → (header : List String) → Entries → List Char → Option Entries
  | 0, _, _, _ => none
  | fuel + 1, header, root, cs =>
    match skipBlanks cs with
    | [] => some root
    | '#' :: rest =>
      match lineEnd? ('#' :: rest) with
      | some rest => lines? fuel header root rest
      | none => none
    | '[' :: '[' :: rest =>
      match header? [']', ']'] rest with
      | none => none
      | some (key, rest) =>
        match openElement? key root with
        | none => none
        | some root => lines? fuel key root rest
    | '[' :: rest =>
      match header? [']'] rest with
      | none => none
      | some (key, rest) =>
        match openTable? key root with
        | none => none
        | some root => lines? fuel key root rest
    | cs =>
      match lineBreak? cs with
      | some rest => lines? fuel header root rest
      | none =>
        match assignment? header root cs with
        | some (root, rest) => lines? fuel header root rest
        | none => none

/-- The root table of a document. A byte order mark before it is skipped. -/
def parse? (text : String) : Option Entries :=
  let cs := match text.toList with
    | '\ufeff' :: rest => rest
    | cs => cs
  lines? (cs.length + 1) [] [] cs

end KernelFusion.Toml
