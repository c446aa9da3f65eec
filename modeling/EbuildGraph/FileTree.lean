import EbuildGraph.Error
import EbuildGraph.Path.Basic

/-!
# Trees of files

Configuration and repositories are read from a tree of files, which is a value:
the same tree gives the same answers.  Names in a directory have the order in which
the directory reports them.

Main definitions:

- {lit}`FileTree.find`: the node that a path leads to, through symbolic links.
- {lit}`FileTree.readText`, {lit}`FileTree.listDirectory`, {lit}`FileTree.readLink`:
  what can be asked of a path.
- {lit}`FileTree.writeText`: the tree with a file written.
-/

namespace EbuildGraph

/-- What a file holds. -/
inductive Contents where
  | text (s : String)
  | bytes (bs : List UInt8)
deriving DecidableEq, Inhabited

/-- The text of a file, if it holds well-formed UTF-8. -/
def Contents.decode : Contents → Except FileFault String
  | text s => .ok s
  | bytes bs =>
    match Text.decodeUtf8 bs with
    | .ok s => .ok s
    | .error _ => .error .notUtf8

/-- A file, a directory or a symbolic link. -/
inductive Node where
  | file (contents : Contents)
  | directory (entries : List (String × Node))
  | link (target : Path)

namespace Node

instance : Inhabited Node := ⟨directory []⟩

/-- Whether a node is a directory. -/
def isDirectory : Node → Bool
  | directory _ => true
  | _ => false

/-- Whether a node is a file. -/
def isFile : Node → Bool
  | file _ => true
  | _ => false

/-- Writes an entry of a directory; a new one comes last. -/
def setEntry (name : String) (node : Node) : List (String × Node) → List (String × Node)
  | [] => [(name, node)]
  | entry :: rest =>
    if entry.1 = name then (name, node) :: rest else entry :: setEntry name node rest

/-- Changes the node at a place below another, with the directories on the way. -/
def update (f : Option Node → Node) : List String → Option Node → Node
  | [], node => f node
  | name :: rest, some (directory entries) =>
    directory (setEntry name (update f rest (entries.lookup name)) entries)
  | name :: rest, _ => directory [(name, update f rest none)]

/-- The directory at a place; what is no directory gives way to an empty one. -/
def asDirectory : Option Node → Node
  | some (directory entries) => directory entries
  | _ => directory []

end Node

/-- A tree of files and the directory that relative paths start from. -/
structure FileTree where
  root : Node
  workingDirectory : Path
deriving Inhabited

namespace FileTree

/-- The directories on the way to a node, innermost first, with their names. -/
abbrev Trail := List (String × Node)

/-- What the last name of a path may be. -/
inductive LastName where
  /-- It must exist, and a link is followed. -/
  | existing
  /-- It must exist, and a link is the result. -/
  | itself
  /-- It may be missing, and a link is followed. -/
  | creatable
deriving DecidableEq

/-- The node at the end of a trail. -/
def nodeAt (tree : FileTree) : Trail → Node
  | [] => tree.root
  | (_, node) :: _ => node

/-- The names between the slashes of a path, with the empty ones. -/
def namesOf (p : Path) : List String :=
  Text.fields '/' p.text

/-- The number of bytes that one name may have. -/
def maxNameBytes : Nat := 255

/-- The number of bytes that a path may have. -/
def maxPathBytes : Nat := 4095

/-- Follows names from a trail.  The given function takes over where a link starts
another list of names.  A slash after a name that may be missing asks for a directory,
which no file can be written over. -/
def walkWith (follow : Trail → List String → Except FileFault Trail) (tree : FileTree)
    (last : LastName) (trail : Trail) : List String → Except FileFault Trail
  | [] => .ok trail
  | name :: rest =>
    match tree.nodeAt trail with
    | .directory entries =>
      if name = "" || name = "." then walkWith follow tree last trail rest
      else if name = ".." then walkWith follow tree last trail.tail rest
      else if last = .creatable && !rest.isEmpty && rest.all (· == "") then .error .isDirectory
      else if maxNameBytes < name.utf8ByteSize then .error .nameTooLong
      else
        match entries.lookup name with
        | none =>
          if rest = [] && last = .creatable then .ok ((name, .file (.text "")) :: trail)
          else .error .notFound
        | some (.link target) =>
          if rest = [] && last = .itself then .ok ((name, .link target) :: trail)
          else follow (if target.isAbsolute then [] else trail) (namesOf target ++ rest)
        | some node => walkWith follow tree last ((name, node) :: trail) rest
    | _ => .error .notDirectory

/-- Follows names from a trail through at most the given number of links. -/
def walk (tree : FileTree) (last : LastName) : Nat → Trail → List String → Except FileFault Trail
  | 0 => walkWith (fun _ _ => .error .tooManyLinks) tree last
  | links + 1 => walkWith (walk tree last links) tree last

/-- The number of links that one path may lead through. -/
def maxLinks : Nat := 40

/-- The trail of a path. -/
def trailOf (tree : FileTree) (last : LastName) (p : Path) : Except FileFault Trail :=
  if p.text.toList.contains (Char.ofNat 0) then .error .nulInPath
  else if p.text = "" then .error .notFound
  else if maxPathBytes < p.text.utf8ByteSize then .error .nameTooLong
  else
    let names := if p.isAbsolute then namesOf p else namesOf tree.workingDirectory ++ namesOf p
    walk tree last maxLinks [] names

/-- The node that a path leads to, through symbolic links. -/
def find (tree : FileTree) (p : Path) : Except FileFault Node :=
  (tree.trailOf .existing p).map tree.nodeAt

/-- Whether a path leads to a directory. -/
def isDirectory (tree : FileTree) (p : Path) : Bool :=
  match tree.find p with
  | .ok node => node.isDirectory
  | .error _ => false

/-- Whether a path leads to a file. -/
def isFile (tree : FileTree) (p : Path) : Bool :=
  match tree.find p with
  | .ok node => node.isFile
  | .error _ => false

/-- Whether a path leads anywhere. -/
def pathExists (tree : FileTree) (p : Path) : Bool :=
  (tree.find p).toBool

/-- The text of the file at a path. -/
def readText (tree : FileTree) (p : Path) : Except FileFault String :=
  match tree.find p with
  | .error fault => .error fault
  | .ok (.file contents) => contents.decode
  | .ok _ => .error .isDirectory

/-- The entries of the directory at a path, in the order it reports them. -/
def listDirectory (tree : FileTree) (p : Path) : Except FileFault (List (String × Node)) :=
  match tree.find p with
  | .error fault => .error fault
  | .ok (.directory entries) => .ok entries
  | .ok _ => .error .notDirectory

/-- The target of the symbolic link at a path. -/
def readLink (tree : FileTree) (p : Path) : Except FileFault Path :=
  match tree.trailOf .itself p with
  | .error fault => .error fault
  | .ok trail =>
    match tree.nodeAt trail with
    | .link target => .ok target
    | _ => .error .invalidArgument

/-- The tree with a node put at a place, with the directories on the way. -/
def place (tree : FileTree) (names : List String) (node : Node) : FileTree :=
  { tree with root := Node.update (fun _ => node) names (some tree.root) }

/-- The tree with a directory made at a place unless there is one. -/
def makeDirectory (tree : FileTree) (names : List String) : FileTree :=
  { tree with root := Node.update Node.asDirectory names (some tree.root) }

/-- The tree with a directory made at a path, if nothing is there and its parent is. -/
def addDirectory (tree : FileTree) (p : Path) : FileTree :=
  if (tree.trailOf .itself p).toBool then tree
  else
    match tree.trailOf .creatable p with
    | .error _ => tree
    | .ok trail => tree.makeDirectory (trail.map Prod.fst).reverse

/-- The tree with the directories that a path lies in, made where they are missing. -/
def addParents (tree : FileTree) (p : Path) : FileTree :=
  p.ancestors.reverse.foldl addDirectory tree

/-- The tree with a file written at a path. -/
def writeText (tree : FileTree) (p : Path) (s : String) : Except FileFault FileTree :=
  match tree.trailOf .creatable p with
  | .error fault => .error fault
  | .ok trail =>
    if (tree.nodeAt trail).isDirectory then .error .isDirectory
    else
      let names := (trail.map Prod.fst).reverse
      .ok (tree.place names (.file (.text s)))

end FileTree
end EbuildGraph
