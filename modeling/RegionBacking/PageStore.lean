import RegionBacking.Pretouch
import RegionBacking.Refusal

/-!
# Page stores

A mapper does not speak to the operating system. It drives a page store: a reservation that is cut
into pages of one size, which are committed, uncommitted and pretouched by their index. A store may
refuse to commit or to uncommit.
-/

namespace RegionBacking

/-- A reservation whose pages are committed by index. -/
class PageStore (σ : Type) where
  /-- The bytes of the reservation. -/
  reservedSize : σ → Nat
  /-- The bytes of a page. -/
  pageSize : σ → Nat
  /-- The first address of a page. -/
  pageStart : σ → Nat → Except Fault Nat
  /-- Backs the given number of pages from a page on. The value says whether all their bytes are
  sure to read as zero. -/
  commit (start count : Nat) : Op Refusal σ Bool
  /-- Gives the memory of the given number of pages from a page on up. -/
  uncommit (start count : Nat) : Op Refusal σ Unit
  /-- Touches the given number of committed pages from a page on. -/
  pretouch (start count : Nat) (pretoucher : Pretoucher) : Op Refusal σ PretouchReport

end RegionBacking
