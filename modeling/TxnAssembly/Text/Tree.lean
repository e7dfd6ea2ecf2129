import TxnAssembly.Text.Quoted

/-!
# Diagnostic trees

What a value shows of itself for diagnosis is a tree of names, and one tree has
two layouts: `compact` on a single line, `expanded` with one field or item a
line.
-/
namespace TxnAssembly.Text

/-- A value as its diagnostics show it. An open record does not show all of its
fields and says so by two dots. -/
inductive Tree where
  | atom (text : String)
  | list (items : List Tree)
  | wrapped (name : String) (content : Tree)
  | record (name : String) (fields : List (String × Tree)) (isOpen : Bool)

namespace Tree

def text (s : String) : Tree := .atom (quote s)

def nat (n : Nat) : Tree := .atom (toString n)

def bool (b : Bool) : Tree := .atom (if b then "true" else "false")

/-- An optional value names both of its cases. -/
def optional (t : Option Tree) : Tree :=
  match t with
  | none => .atom "None"
  | some t => .wrapped "Some" t

mutual

/-- Everything on one line. -/
def compact (t : Tree) : String :=
  match t with
  | .atom text => text
  | .list items => "[" ++ compactItems items ++ "]"
  | .wrapped name content => name ++ "(" ++ compact content ++ ")"
  | .record name fields isOpen =>
    name ++ " \x7b " ++ compactFields fields ++
      (if isOpen then (if fields.isEmpty then ".." else ", ..") else "") ++ " \x7d"

def compactItems (items : List Tree) : String :=
  match items with
  | [] => ""
  | [t] => compact t
  | t :: rest => compact t ++ ", " ++ compactItems rest

def compactFields (fields : List (String × Tree)) : String :=
  match fields with
  | [] => ""
  | [(name, t)] => name ++ ": " ++ compact t
  | (name, t) :: rest => name ++ ": " ++ compact t ++ ", " ++ compactFields rest

end

/-- The start of a line at a depth of nesting. -/
def indent (depth : Nat) : String := String.ofList (List.replicate (4 * depth) ' ')

mutual

/-- One field or item a line, for a value that stands at `depth`. -/
def expandedAt (depth : Nat) (t : Tree) : String :=
  match t with
  | .atom text => text
  | .list items =>
    if items.isEmpty then "[]"
    else "[\n" ++ expandedItems (depth + 1) items ++ indent depth ++ "]"
  | .wrapped name content =>
    name ++ "(\n" ++ indent (depth + 1) ++ expandedAt (depth + 1) content ++ ",\n" ++
      indent depth ++ ")"
  | .record name fields isOpen =>
    name ++ " \x7b\n" ++ expandedFields (depth + 1) fields ++
      (if isOpen then indent (depth + 1) ++ "..\n" else "") ++ indent depth ++ "\x7d"

def expandedItems (depth : Nat) (items : List Tree) : String :=
  match items with
  | [] => ""
  | t :: rest =>
    indent depth ++ expandedAt depth t ++ ",\n" ++ expandedItems depth rest

def expandedFields (depth : Nat) (fields : List (String × Tree)) : String :=
  match fields with
  | [] => ""
  | (name, t) :: rest =>
    indent depth ++ name ++ ": " ++ expandedAt depth t ++ ",\n" ++
      expandedFields depth rest

end

def expanded (t : Tree) : String := expandedAt 0 t

end Tree

/-- How a diagnostic tree is laid out. -/
inductive Layout where
  | compact
  | expanded
deriving DecidableEq, Repr

/-- The text of a tree in a layout. -/
def Tree.render (layout : Layout) (t : Tree) : String :=
  match layout with
  | .compact => t.compact
  | .expanded => t.expanded

end TxnAssembly.Text
