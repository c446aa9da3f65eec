import EbuildGraph.Error
import EbuildGraph.Names.NameMap
import EbuildGraph.Names.NameSet
import EbuildGraph.SourceUri.Basic

/-!
# The files that source addresses lead to

Main definitions:

- {lit}`Entry.fileName?`: the name that the file of an address is stored under.
- {lit}`Entry.collect`: the addresses of an entry that hold, added to their files.
- {lit}`downloads`: the addresses that hold under given flags, by file name.
-/

namespace EbuildGraph
namespace SourceUri

/-- The last part of an address without query and fragment. -/
def fileNameOfUrl (url : String) : Except Error String :=
  let path := url.toList.takeWhile fun c => c != '?' && c != '#'
  let name := (path.reverse.takeWhile (· != '/')).reverse
  if path.contains '/' && !name.isEmpty then .ok (String.ofList name)
  else .error (.sourceUriName url)

/-- The name that the file of an address is stored under. -/
def fileNameOf (url : String) (rename : Option String) : Except Error String :=
  match rename with
  | some name => .ok name
  | none => fileNameOfUrl url

/-- The name that an entry's file is stored under; groups have no file. -/
def Entry.fileName? : Entry → Option (Except Error String)
  | .uri url rename => some (fileNameOf url rename)
  | _ => none

mutual

/-- Adds the addresses of an entry whose conditions hold to the files that they lead to. -/
def Entry.collect (flags : NameSet) (files : NameMap (List String)) :
    Entry → Except Error (NameMap (List String))
  | .uri url rename =>
    match fileNameOf url rename with
    | .error err => .error err
    | .ok name => .ok (files.push name url)
  | .useConditional flag negated entries =>
    if flags.contains flag != negated then collectAll flags files entries else .ok files
  | .group entries => collectAll flags files entries

/-- Adds the addresses of several entries, from left to right. -/
def collectAll (flags : NameSet) (files : NameMap (List String)) :
    List Entry → Except Error (NameMap (List String))
  | [] => .ok files
  | e :: rest =>
    match e.collect flags files with
    | .error err => .error err
    | .ok files => collectAll flags files rest

end

/-- The addresses that hold under the given flags, by file name.  A file with several
addresses keeps them in the order in which they appear. -/
def downloads (entries : List Entry) (flags : NameSet) : Except Error (NameMap (List String)) :=
  collectAll flags NameMap.empty entries

end SourceUri
end EbuildGraph
