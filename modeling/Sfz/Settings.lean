import Sfz.Path
import Sfz.Version

namespace Sfz

structure Settings where
  basePath : Option Path := none
  /-- Without any, every revision is accepted. -/
  versions : List Version := []
  checkFiles : Bool := true
  failFast : Bool := false
  deriving DecidableEq

def Settings.allowedVersions (s : Settings) : Option (List Version) :=
  if s.versions.isEmpty then none else some (Version.allowed s.versions)

end Sfz
