import EbuildGraph.Repository.Profile
import EbuildGraph.Resolver.Selection

/-!
# Resolvers for boards

The root directory of a board names the repositories and the profile.

Main definition:

- {lit}`Resolver.ofRoot`: the resolver for the board in a directory.
-/

namespace EbuildGraph
namespace Resolver

/-- The directories of the repositories that variables name: the main one first. -/
def repositoryRoots (env : Variables) : Except Error (List Path) :=
  let main := Variables.value env "PORTDIR"
  if main = "" then .error .noMainRepository
  else .ok ((main :: Variables.list env "PORTDIR_OVERLAY").map Path.mk)

/-- The directory of the profile that a board is linked to. -/
def profileDirectory (tree : FileTree) (root : Path) : Except Error Path :=
  let link := root.child "etc/portage/make.profile"
  match tree.readLink link with
  | .error fault => .error (.file link fault)
  | .ok target =>
    .ok (if target.isAbsolute then target else ((root.child "etc/portage").join target).clean)

/-- The resolver for the board in a directory.  Its configuration is the profile, on top of
it the user's configuration, and on top of that the overrides. -/
def ofRoot (tree : FileTree) (root : Path) (settings : Settings) : Except Error Resolver := do
  let user ← Configuration.UserSettings.load tree root
  let (env, tables) := user.globalTables tree NameMap.empty
  let _ ← tables
  let roots ← repositoryRoots env
  let repositories ← RepositorySet.load tree roots
  let directory ← profileDirectory tree root
  let profile ← repositories.profileOfPath tree directory
  let profileSettings ← profile.settings tree
  let overrides ← settings.overrides.source
  return {
    tree, repositories, settings
    config := .bundle [.profile profileSettings, .user user, overrides] }

end Resolver
end EbuildGraph
