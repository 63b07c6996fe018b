import Syndication.Store.Key
import Syndication.Text.Utf8

/-!
# Store.Tree — objects as files in a directory tree

The segments of a key are the directories on the way to a file and its name. Directories are made
when a file needs them and removed when their last entry is; a file is written under a temporary
name beside its place and then moved there. The tree behaves like a POSIX file system with names of
at most 255 octets: a file on the way, a directory in the place or a name that is too long is an
error, and what was made before the error stays.

## Contents
* `Path`, `Tree`, `Lookup`, `Tree.look`
* `get`, `put`, `delete`, `list` — the operations of a store
* `walk`                         — down from a directory, where keys may stand
* `listing`                      — every path of the tree
-/

namespace Syndication.Store

/-- A place in the tree: the names from the root down. -/
abbrev Path := List String

/-- The directories below the root and the files. Every directory on the way to one of them is in
`dirs`. -/
structure Tree where
  dirs : List Path := []
  files : List (Path × Bytes) := []
  deriving Repr, Inhabited

namespace Tree

/-- Names have at most this many octets. -/
def maxName : Nat := 255

/-- Octets of a text. -/
def octets (s : String) : Nat := s.utf8ByteSize

/-- A failure of the file system. -/
def failure (reason : String) : Error := .storage (.io reason)

/-- What stands at a path. -/
inductive Lookup where
  | missing
  | directory
  | file (data : Bytes)
  | failed (reason : String)
  deriving Repr

/-- The root and the directories below it. -/
def isDir (t : Tree) (p : Path) : Bool := p.isEmpty || t.dirs.contains p

/-- Walks down from a directory, entry by entry. -/
def lookFrom (t : Tree) : Path → Path → Lookup
  | _, [] => .directory
  | at', name :: rest =>
    if maxName < octets name then .failed "name too long"
    else
      let here := at' ++ [name]
      if t.isDir here then lookFrom t here rest
      else match t.files.lookup here with
        | some data => if rest.isEmpty then .file data else .failed "not a directory"
        | none => .missing

/-- A name that no file system takes. -/
def hasNul (p : Path) : Bool := p.any fun name => name.toList.contains '\x00'

/-- What stands at a path. -/
def look (t : Tree) (p : Path) : Lookup :=
  if hasNul p then .failed "name holds a NUL character" else t.lookFrom [] p

/-! ## Reading -/

/-- The path of a key. -/
def pathFor (key : String) : Except Error Path := do
  validateKey key
  return segments key

/-- The object under a key. -/
def get (t : Tree) (key : String) : Except Error (Option Bytes) := do
  match t.look (← pathFor key) with
  | .missing => return none
  | .file data => return some data
  | .directory => throw (failure "is a directory")
  | .failed reason => throw (failure reason)

/-! ## Writing -/

/-- Makes the directories on a way that are missing, from the root down. -/
def makeDirs (t : Tree) : Path → Path → Except Error Unit × Tree
  | _, [] => (.ok (), t)
  | at', name :: rest =>
    let here := at' ++ [name]
    if maxName < octets name then (.error (failure "name too long"), t)
    else if t.isDir here then makeDirs t here rest
    else if (t.files.lookup here).isSome then (.error (failure "not a directory"), t)
    else makeDirs { t with dirs := t.dirs ++ [here] } here rest

/-- The octets that a temporary name adds to the name of a file: its beginning, a hyphen and a fresh
identifier. -/
def tempOverhead : Nat := 38

/-- The file put in place of the one that stood there. -/
def writeFile (t : Tree) (p : Path) (data : Bytes) : Tree :=
  { t with files := t.files.filter (·.1 ≠ p) ++ [(p, data)] }

/-- Writes a file into a directory that exists, by way of a temporary name. -/
def placeFile (t : Tree) (p : Path) (data : Bytes) : Except Error Unit × Tree :=
  let name := p.getLast?.getD ""
  if hasNul [name] then (.error (failure "name holds a NUL character"), t)
  else if maxName < octets name + tempOverhead then (.error (failure "name too long"), t)
  else if t.isDir p then (.error (failure "is a directory"), t)
  else (.ok (), t.writeFile p data)

/-- Puts an object under a key. -/
def put (t : Tree) (key : String) (data : Bytes) : Except Error Unit × Tree :=
  match pathFor key with
  | .error e => (.error e, t)
  | .ok p =>
    if hasNul p.dropLast then (.error (failure "name holds a NUL character"), t)
    else match t.makeDirs [] p.dropLast with
      | (.error e, t) => (.error e, t)
      | (.ok (), t) => t.placeFile p data

/-- A directory that holds something. -/
def isOccupied (t : Tree) (p : Path) : Bool :=
  t.dirs.any (fun d => d.dropLast = p && !d.isEmpty) || t.files.any (fun f => f.1.dropLast = p)

/-- Removes the directories that have become empty, from the given one up; the second argument
counts the levels above it. -/
def prune (t : Tree) (p : Path) : Nat → Tree
  | 0 => t
  | levels + 1 =>
    if p.isEmpty || t.isOccupied p then t
    else prune { t with dirs := t.dirs.filter (· ≠ p) } p.dropLast levels

/-- Removes the object under a key and the directories that this leaves empty. -/
def delete (t : Tree) (key : String) : Except Error Bool × Tree :=
  match pathFor key with
  | .error e => (.error e, t)
  | .ok p =>
    match t.look p with
    | .missing => (.ok false, t)
    | .file _ =>
      let t := { t with files := t.files.filter (·.1 ≠ p) }
      (.ok true, t.prune p.dropLast p.length)
    | .directory => (.error (failure "is a directory"), t)
    | .failed reason => (.error (failure reason), t)

/-! ## Listing -/

/-- What stands before the last slash. -/
def directoryPart (start : String) : String :=
  String.ofList ((start.toList.reverse.dropWhile (· ≠ '/')).drop 1).reverse

/-- The key of a path. -/
def keyOf (p : Path) : String := Text.joined "/" p

/-- The last name of a path is that of a file that is still being written. -/
def isUnfinished (p : Path) : Bool := Text.startsWith (p.getLast?.getD "") tempStart

/-- Whether keys that begin with `start` may stand below a directory. -/
def leadsTo (start : String) (d : Path) : Bool :=
  Text.startsWith (keyOf d) start || Text.startsWith start (keyOf d ++ "/")

/-- The directories in a directory that a walk goes down to. -/
def dirsIn (t : Tree) (start : String) (dir : Path) : List Path :=
  t.dirs.filter fun d => !d.isEmpty && d.dropLast = dir && !isUnfinished d && leadsTo start d

/-- The keys of the files in a directory that begin with `start`. -/
def keysIn (t : Tree) (start : String) (dir : Path) : List String :=
  ((t.files.filter fun (p, _) => p.dropLast = dir && !isUnfinished p).map fun (p, _) => keyOf p).filter
    (Text.startsWith · start)

/-- How many names the longest path of a directory has. -/
def depth (t : Tree) : Nat := t.dirs.foldr (fun d longest => max d.length longest) 0

theorem length_le_depth {t : Tree} {d : Path} (h : d ∈ t.dirs) : d.length ≤ t.depth := by
  unfold depth
  generalize t.dirs = dirs at h
  induction dirs with
  | nil => cases h
  | cons e dirs ih =>
    rw [List.foldr_cons]
    rcases List.mem_cons.mp h with rfl | h
    · exact Nat.le_max_left _ _
    · exact Nat.le_trans (ih h) (Nat.le_max_right _ _)

/-- A walk goes down by one name at a time. -/
theorem length_of_mem_dirsIn {t : Tree} {start : String} {dir d : Path} (h : d ∈ t.dirsIn start dir) :
    d.length = dir.length + 1 := by
  simp only [dirsIn, List.mem_filter, Bool.and_eq_true, Bool.not_eq_true', decide_eq_true_eq] at h
  obtain ⟨-, ⟨⟨hne, hlast⟩, -⟩, -⟩ := h
  have hpos : 0 < d.length := List.length_pos_iff.mpr (by simpa using hne)
  rw [← hlast, List.length_dropLast]
  omega

/-- The keys of the files below a directory that begin with `start`. -/
def walk (t : Tree) (start : String) (dir : Path) : List String :=
  t.keysIn start dir ++ (t.dirsIn start dir).attach.flatMap fun ⟨d, _⟩ => t.walk start d
termination_by t.depth - dir.length
decreasing_by
  rename_i hd
  have hlength := length_of_mem_dirsIn hd
  have hle := length_le_depth (List.mem_filter.mp hd).1
  omega

/-- The keys below a directory that begin with `start`, ascending. -/
def listBelow (t : Tree) (start : String) (dir : Path) : Except Error (List String) :=
  match t.look dir with
  | .missing => .ok []
  | .directory => .ok ((t.walk start dir).mergeSort (· ≤ ·))
  | .file _ => .error (failure "not a directory")
  | .failed reason => .error (failure reason)

/-- The keys that begin with `start`, ascending. The walk begins at the deepest directory that
`start` names in full. -/
def list (t : Tree) (start : String) : Except Error (List String) := do
  let dirPart := directoryPart start
  let dir ← if dirPart.isEmpty then pure [] else pathFor dirPart
  t.listBelow start dir

/-- Every path of the tree, directories with a slash at the end. -/
def listing (t : Tree) : List String :=
  (t.dirs.map (keyOf · ++ "/") ++ t.files.map (keyOf ·.1)).mergeSort (· ≤ ·)

end Tree
end Syndication.Store
