/-!
# Release

The version of the library, as programs that embed it show it.
-/

namespace RegionBacking

/-- The version of the library. -/
def version : String := "0.0.3"

end RegionBacking
