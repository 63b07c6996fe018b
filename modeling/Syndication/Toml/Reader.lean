import Syndication.Toml.Scalar

/-!
# Toml.Reader — reading TOML documents

A document is read line by line into a tree of tables that remember how they came about, since that
decides whether a later line may add to them: a table may have one header, a table made by a dotted
key takes further dotted keys of the same table only, and a table made on the way to another one may
still get its header.

## Contents
* `value?`                       — values, arrays and tables in braces
* `Origin`, `Node`, `descend`    — the tree
* `State`, `State.header?`, `State.assign?`
* `Toml.ofText?`                 — whole documents
-/

namespace Syndication.Toml

/-! ## The tree -/

/-- How a table came about. -/
inductive Origin where
  /-- By a header of its own, or it is the document. -/
  | explicit
  /-- On the way to a table with a header. -/
  | implicit
  /-- By a dotted key. -/
  | dotted
  deriving DecidableEq, Repr

/-- A value that is done, a table, or a list of tables. -/
inductive Node where
  | leaf (value : Toml)
  | table (origin : Origin) (entries : List (String × Node))
  | tables (elements : List (List (String × Node)))
  deriving Inhabited

/-- The entries of a table. -/
abbrev Entries := List (String × Node)

/-- The entries with the node under a key replaced, or added at the end. -/
def setEntry (key : String) (node : Node) : Entries → Entries
  | [] => [(key, node)]
  | (k, n) :: rest => if k = key then (k, node) :: rest else (k, n) :: setEntry key node rest

/-- Changes the table at the end of a path, making the tables on the way that are missing. By way of
a dotted key no table with a header is entered. Of a list of tables the last one is entered. -/
def descend {α : Type} (byDots : Bool) (change : Origin → Entries → Option (Entries × α)) :
    List String → Origin → Entries → Option (Entries × α)
  | [], origin, entries => change origin entries
  | key :: path, _, entries =>
    match entries.lookup key with
    | none => do
      let origin := if byDots then .dotted else .implicit
      let (inner, a) ← descend byDots change path origin []
      return (setEntry key (.table origin inner) entries, a)
    | some (.leaf _) => none
    | some (.table origin inner) =>
      if byDots && origin == .explicit then none
      else do
        let (inner, a) ← descend byDots change path origin inner
        return (setEntry key (.table origin inner) entries, a)
    | some (.tables elements) => do
      let last ← elements.getLast?
      let (inner, a) ← descend byDots change path .explicit last
      return (setEntry key (.tables (elements.dropLast ++ [inner])) entries, a)

/-- Adds a value under a new key to a table that dotted keys lead to, or to the one at hand. -/
def addLeaf (dotted : Bool) (key : String) (value : Toml) (origin : Origin) (entries : Entries) :
    Option (Entries × Unit) :=
  if (origin == .dotted) == !dotted then none
  else if (entries.lookup key).isSome then none
  else some (entries ++ [(key, .leaf value)], ())

/-- Adds a value under a key of one or more names. -/
def assign? (names : List String) (value : Toml) (entries : Entries) : Option Entries := do
  let key ← names.getLast?
  let path := names.dropLast
  let (entries, _) ← descend true (addLeaf (!path.isEmpty) key value) path .explicit entries
  return entries

mutual

/-- The value of a node. -/
def Node.toToml : Node → Toml
  | .leaf v => v
  | .table _ entries => .table (entriesToml entries)
  | .tables elements => .array (elementsToml elements)

def entriesToml : List (String × Node) → List (String × Toml)
  | [] => []
  | (k, n) :: rest => (k, n.toToml) :: entriesToml rest

def elementsToml : List (List (String × Node)) → List Toml
  | [] => []
  | es :: rest => .table (entriesToml es) :: elementsToml rest

end

/-! ## Values -/

/-- What follows blanks, line ends and comments; the first argument bounds the number of lines. -/
def skipLines : Nat → List Char → List Char
  | 0, cs => cs
  | fuel + 1, cs =>
    let cs := skipComment (skipWs cs)
    match newline? cs with
    | some rest => skipLines fuel rest
    | none => cs

/-- What follows blanks, line ends and comments. -/
def skipAll (cs : List Char) : List Char := skipLines (cs.length + 1) cs

mutual

/-- A value that is nested `depth` deep; `fuel` bounds the values that are read. -/
def value? : Nat → Nat → List Char → Option (Toml × List Char)
  | 0, _, _ => none
  | fuel + 1, depth, cs =>
    match cs with
    | '"' :: _ => (string? cs).map fun (s, rest) => (.string s, rest)
    | '\'' :: _ => (string? cs).map fun (s, rest) => (.string s, rest)
    | '[' :: rest =>
      if maxDepth ≤ depth + 1 then none
      else match skipAll rest with
        | ']' :: rest => some (.array [], rest)
        | rest => items? fuel (depth + 1) [] rest
    | '{' :: rest =>
      if maxDepth ≤ depth + 1 then none
      else match skipWs rest with
        | '}' :: rest => some (.table [], rest)
        | rest => pairs? fuel (depth + 1) [] rest
    | 't' :: 'r' :: 'u' :: 'e' :: rest => some (.boolean true, rest)
    | 'f' :: 'a' :: 'l' :: 's' :: 'e' :: rest => some (.boolean false, rest)
    | cs => number? cs

/-- The items up to the closing bracket; a comma may stand behind the last. -/
def items? : Nat → Nat → List Toml → List Char → Option (Toml × List Char)
  | 0, _, _, _ => none
  | fuel + 1, depth, done, cs =>
    match value? fuel depth (skipAll cs) with
    | none => none
    | some (item, rest) =>
      match skipAll rest with
      | ',' :: rest =>
        match skipAll rest with
        | ']' :: rest => some (.array (item :: done).reverse, rest)
        | rest => items? fuel depth (item :: done) rest
      | ']' :: rest => some (.array (item :: done).reverse, rest)
      | _ => none

/-- The pairs up to the closing brace, all on one line. -/
def pairs? : Nat → Nat → Entries → List Char → Option (Toml × List Char)
  | 0, _, _, _ => none
  | fuel + 1, depth, done, cs =>
    match key? cs with
    | none => none
    | some (names, rest) =>
      match rest with
      | '=' :: rest =>
        match value? fuel depth (skipWs rest) with
        | none => none
        | some (item, rest) =>
          match assign? names item done with
          | none => none
          | some done =>
            match skipWs rest with
            | ',' :: rest => pairs? fuel depth done rest
            | '}' :: rest => some (.table (entriesToml done), rest)
            | _ => none
      | _ => none

end

/-! ## Documents -/

/-- The tables read so far, and the one that is being read: its place, whether it is an element of a
list of tables, and its entries. -/
structure State where
  root : Entries := []
  path : List String := []
  isElement : Bool := false
  entries : Entries := []

/-- Adds a finished table to its list of tables. -/
def addElement (key : String) (element : Entries) (_ : Origin) (entries : Entries) :
    Option (Entries × Unit) :=
  match entries.lookup key with
  | none => some (setEntry key (.tables [element]) entries, ())
  | some (.tables elements) => some (setEntry key (.tables (elements ++ [element])) entries, ())
  | _ => none

/-- Puts a finished table in its place. -/
def addTable (key : String) (inner : Entries) (_ : Origin) (entries : Entries) :
    Option (Entries × Unit) :=
  some (setEntry key (.table .explicit inner) entries, ())

/-- Puts the table that is being read in its place. -/
def State.close? (s : State) : Option Entries :=
  match s.path.getLast? with
  | none => some s.entries
  | some key =>
    let add := if s.isElement then addElement key s.entries else addTable key s.entries
    (descend false add s.path.dropLast .explicit s.root).map (·.1)

/-- Takes a table out that was only made on the way to others, to be read under its header. -/
def takeImplicit (key : String) (_ : Origin) (entries : Entries) : Option (Entries × Entries) :=
  match entries.lookup key with
  | none => some (entries, [])
  | some (.table .implicit inner) => some (entries.filter (·.1 ≠ key), inner)
  | some _ => none

/-- A list of tables may stand here. -/
def allowElement (key : String) (_ : Origin) (entries : Entries) : Option (Entries × Entries) :=
  match entries.lookup key with
  | none => some (entries, [])
  | some (.tables _) => some (entries, [])
  | some _ => none

/-- A header begins the next table. -/
def State.header? (s : State) (path : List String) (isElement : Bool) : Option State := do
  let root ← s.close?
  let key ← path.getLast?
  let start := if isElement then allowElement key else takeImplicit key
  let (root, entries) ← descend false start path.dropLast .explicit root
  return { root := root, path := path, isElement := isElement, entries := entries }

/-- A value for a key of the table that is being read. -/
def State.assign? (s : State) (names : List String) (value : Toml) : Option State :=
  (Toml.assign? names value s.entries).map ({ s with entries := · })

/-- One line that is neither empty nor a comment, and what follows it. -/
def line? (s : State) : List Char → Option (State × List Char)
  | '[' :: '[' :: rest => do
    let (path, cs) ← key? rest
    let cs ← char? ']' cs
    let cs ← char? ']' cs
    let cs ← lineEnd? cs
    return (← s.header? path true, cs)
  | '[' :: rest => do
    let (path, cs) ← key? rest
    let cs ← char? ']' cs
    let cs ← lineEnd? cs
    return (← s.header? path false, cs)
  | cs => do
    let (names, cs) ← key? cs
    let cs ← char? '=' cs
    let (v, cs) ← value? (cs.length + 1) 0 (skipWs cs)
    let cs ← lineEnd? cs
    return (← s.assign? names v, cs)

/-- The lines of a document; the first argument bounds their number. -/
def lines? : Nat → State → List Char → Option State
  | 0, _, _ => none
  | fuel + 1, s, cs =>
    match skipAll cs with
    | [] => some s
    | cs =>
      match line? s cs with
      | some (s, rest) => lines? fuel s rest
      | none => none

/-- The table that a document describes. A byte order mark may stand in front. -/
def ofText? (text : String) : Option Toml := do
  let cs := match text.toList with
    | '\uFEFF' :: rest => rest
    | cs => cs
  let s ← lines? (cs.length + 1) {} cs
  let root ← s.close?
  return .table (entriesToml root)

end Syndication.Toml
