import RegionBacking.Activity
import RegionBacking.Bitmap
import RegionBacking.Nodes
import RegionBacking.PageStore.Space
import RegionBacking.Settings.Environment
import RegionBacking.Settings.Validation
import RegionBacking.Strategy

/-!
# Mappers

A mapper backs the regions of a reservation by the pages of a store. It keeps one bit for each
region, which says whether the region is committed, and the strategy by which regions are divided
into pages. This module holds the type, how a mapper is set up, and what can be asked of it; what
commits and uncommits is in `RegionBacking.Mapper.Batch`.
-/

namespace RegionBacking

/-- Who is told of commits. -/
inductive Listener where
  /-- Nobody was ever bound. -/
  | unbound
  /-- A listener that hears. -/
  | live
  /-- A listener that was bound and is gone; nobody else can take its place. -/
  | gone
deriving DecidableEq, Repr

/-- The backing of the regions of a reservation by the pages of a store. -/
structure Mapper (σ : Type) where
  store : σ
  strategy : Strategy
  /-- The regions that are committed. -/
  committed : Bitmap
  /-- The bytes of a region in the region space. -/
  regionSize : Nat
  memoryKind : MemoryKind
  /-- Whether fresh pages are pretouched. -/
  alwaysPretouch : Bool
  /-- The nodes that fresh pages are placed on. -/
  nodes : Nodes
  /-- What the mapper did so far. -/
  activity : Activity
  listener : Listener

namespace Mapper

variable {σ τ : Type}

/-! ## Setting up -/

/-- A mapper over a store by a given strategy. The settings have to be right, fit the store and suit
the strategy. -/
def createWith [PageStore σ] (store : σ) (settings : Settings) (kind : StrategyKind) :
    Op Refusal τ (Mapper σ) := do
  let storePageSize := PageStore.pageSize store
  let storeSize := PageStore.reservedSize store
  match settings.validate with
  | .error error => Op.refuse (.ofSettings error)
  | .ok () =>
    if storePageSize ≠ settings.pageSize then
      Op.refuse (.ofSettings (.storePageSize storePageSize settings.pageSize))
    else if storeSize ≠ settings.reservedSize then
      Op.refuse (.ofSettings (.storeSize storeSize settings.reservedSize))
    else
      match settings.granule? with
      | none => Op.refuse (.configuration .granuleOverflow)
      | some granule =>
        let strategy ← Strategy.create store settings.regionSize granule kind
        let regions := settings.regionCount
        Op.note (.mapperCreated settings.memoryKind regions settings.regionSize settings.pageSize
          kind)
        Op.emit (.event (.reserve settings.memoryKind settings.reservedSize settings.pageSize
          regions))
        pure
          { store, strategy
            committed := .empty regions
            regionSize := settings.regionSize
            memoryKind := settings.memoryKind
            alwaysPretouch := settings.alwaysPretouch
            nodes := .single
            activity := .none
            listener := .unbound }

/-- A mapper over a store, by the strategy that the settings ask for. -/
def create [PageStore σ] (store : σ) (settings : Settings) : Op Refusal τ (Mapper σ) :=
  createWith store settings settings.strategyKind

/-- A mapper over a page space of its own. -/
def reserve (settings : Settings) : Op Refusal Machine (Mapper PageSpace) := do
  match settings.validate with
  | .error error => Op.refuse (.ofSettings error)
  | .ok () =>
    let space ← PageSpace.reserve settings.reservedSize settings.usedSize settings.pageSize
      settings.memoryKind settings.preCommitted
    create space settings

/-- A mapper over a page space of its own, by the settings of the environment. -/
def reserveFromEnvironment (processors : Nat) (environment : Settings.Environment) :
    Op Refusal Machine (Mapper PageSpace) :=
  reserve (.ofEnvironment processors environment)

/-- The mapper with other nodes. -/
def withNodes (mapper : Mapper σ) (nodes : Nodes) : Mapper σ := { mapper with nodes }

/-- Binds a listener, which is possible only once. -/
def bindListener : Op Refusal (Mapper σ) Unit := do
  let mapper ← Op.get
  Op.require (mapper.listener = .unbound) (.listenerBound mapper.memoryKind)
  Op.modify fun mapper => { mapper with listener := .live }

/-- The mapper after its listener, if it has one, is gone. -/
def dropListener (mapper : Mapper σ) : Mapper σ :=
  match mapper.listener with
  | .unbound => mapper
  | _ => { mapper with listener := .gone }

/-! ## Queries -/

/-- The number of regions. -/
def regionCount (mapper : Mapper σ) : Nat := mapper.committed.size

/-- Whether a region is committed; a region that the mapper does not have is not. -/
def isCommitted (mapper : Mapper σ) (region : Nat) : Bool :=
  decide (region < mapper.regionCount) && mapper.committed.bit region

/-- The number of committed regions. -/
def committedCount (mapper : Mapper σ) : Nat := mapper.committed.count

/-- The committed regions, in ascending order. -/
def committedRegions (mapper : Mapper σ) : List Nat := mapper.committed.ones

/-- How many committed regions share a page; none where pages are not shared and for a page that
does not exist. -/
def references? (mapper : Mapper σ) (page : Nat) : Option Nat :=
  mapper.strategy.references.bind fun references =>
    if page < references.size then some (references.entry page) else none

/-- The text of a mapper. -/
def text (mapper : Mapper σ) : String :=
  s!"RegionMapper \x7b memory_type: {mapper.memoryKind.name}, " ++
    s!"strategy: {mapper.strategy.kind.name}, num_regions: {mapper.regionCount}, " ++
    s!"committed_regions: {mapper.committedCount}, region_granularity: {mapper.regionSize} \x7d"

end Mapper

end RegionBacking
