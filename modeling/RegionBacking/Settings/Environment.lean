import RegionBacking.Settings
import RegionBacking.Text.Numeral

/-!
# Settings from the environment

Seven variables of the environment override the standard settings. A variable that is not set, is no
text or is no numeral where one is needed changes nothing. A new reserved size is the new used size
as well.
-/

namespace RegionBacking.Settings

/-- The variables, each by the text that it is set to, if there is one. -/
abbrev Environment := String → Option String

/-- The numeral that a variable is set to. -/
def Environment.size? (environment : Environment) (name : String) : Option Nat :=
  (environment name).bind fun text => Numeral.parse? text.toList

/-- Whether two texts are equal but for the case of ASCII letters. -/
def equalButForCase (a b : String) : Bool :=
  a.toList.map Char.toLower == b.toList.map Char.toLower

/-- The switch that a variable is set to: on for `1` and for `true` in any case, off for any other
text. -/
def Environment.switch? (environment : Environment) (name : String) : Option Bool :=
  (environment name).map fun text => text == "1" || equalButForCase text "true"

/-- The standard settings of a machine with so many processors, with what the environment says
instead. -/
def ofEnvironment (processors : Nat) (environment : Environment) : Settings :=
  let base := standard processors
  { base with
    reservedSize := (environment.size? "FGC_MAPPER_RESERVED_SIZE").getD base.reservedSize
    usedSize := (environment.size? "FGC_MAPPER_RESERVED_SIZE").getD base.usedSize
    regionSize := (environment.size? "FGC_MAPPER_REGION_SIZE").getD base.regionSize
    pageSize := (environment.size? "FGC_MAPPER_PAGE_SIZE").getD base.pageSize
    commitFactor := (environment.size? "FGC_MAPPER_COMMIT_FACTOR").getD base.commitFactor
    alwaysPretouch := (environment.switch? "FGC_MAPPER_PRETOUCH").getD base.alwaysPretouch
    pretouchThreads :=
      (environment.size? "FGC_MAPPER_PRETOUCH_THREADS").map some |>.getD base.pretouchThreads
    nodeAware := (environment.switch? "FGC_MAPPER_NUMA").getD base.nodeAware }

end RegionBacking.Settings
