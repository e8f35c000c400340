import RegionBacking.Proofs.Mapper.Geometry
import RegionBacking.Proofs.PageSpace.Setup

/-!
# How setting up a mapper ends

Setting up a mapper over a page space of its own goes through the test of its settings, the rounding
of a size, two or three requests to the operating system and the layout of a table. Wherever it
stops, it stops with an error that its caller handles, and the checks that were passed by then keep
every sum within the machine words, with one exception. The size is rounded up to pages by way of a
sum that is larger than the rounded size, and for the largest size of all, in pages of the operating
system, only that sum is no word.
-/

namespace RegionBacking

/-! ## Page spaces -/

namespace Reservation.HandedOut

/-- What is handed out lies far below the end of the words, and so does a page of it. -/
theorem sizes_lt {reservation : Reservation} {size pageSize : Nat} {machine : Machine}
    (handedOut : reservation.HandedOut size pageSize machine) :
    size < Word.addressLimit ∧ pageSize < Word.addressLimit := by
  obtain ⟨total, hle, hmax, htotal, -⟩ := handedOut.base_lt
  have hos : Word.osPage < Word.addressLimit := by decide
  omega

end Reservation.HandedOut

namespace PageSpace.Fresh

variable {settings : Settings} {usedSize : Nat} {pinned : Bool} {machine : Machine}
  {space : PageSpace}

/-- A space that was just set up is such as its settings ask for. -/
theorem describes
    (fresh : space.Fresh settings.reservedSize usedSize settings.pageSize pinned machine)
    (hplace : ∀ total, machine.place total < Word.addressLimit) :
    settings.Describes space space.base where
  pageSize_eq := fresh.handedOut.pageSize_eq
  reservedSize_eq := fresh.handedOut.size_eq
  pageStart_eq := by
    have hfirst : space.firstAddress 0 = space.base := by
      rw [firstAddress, Nat.zero_mul, Nat.add_zero]
    have hlimit := Mapper.limit_lt_of_fresh fresh hplace
    rw [← hfirst]
    exact pageStart_eq_ok (by omega)
  limit_lt := Mapper.limit_lt_of_fresh fresh hplace
  table_le := by
    have hsize := fresh.handedOut.sizes_lt.1
    have hpages := Nat.div_le_self settings.reservedSize settings.pageSize
    calc settings.reservedSize / settings.pageSize * entryBytes
        ≤ Word.addressLimit * entryBytes := Nat.mul_le_mul_right _ (by omega)
      _ ≤ Word.maxAllocation := by decide

/-- Over a space that was just set up, a mapper can be set up by the strategy that its settings ask
for. -/
theorem exists_create
    (fresh : space.Fresh settings.reservedSize usedSize settings.pageSize pinned machine)
    (valid : settings.Valid) (hplace : ∀ total, machine.place total < Word.addressLimit) {τ : Type}
    (state : τ) : ∃ mapper, (Mapper.create space settings state).result = .ok mapper := by
  have describes := fresh.describes hplace
  unfold Mapper.create Settings.strategyKind
  rw [valid.usesLargeRegions_eq]
  by_cases hlarge : settings.pageSize * settings.commitFactor ≤ settings.regionSize
  · rw [decide_eq_true hlarge, if_pos rfl]
    exact (describes.exists_createWith_large_iff valid state).mpr hlarge
  · rw [decide_eq_false hlarge, if_neg Bool.false_ne_true]
    obtain ⟨hsize, hpage⟩ := fresh.handedOut.sizes_lt
    exact (describes.exists_createWith_small_iff valid state).mpr
      ⟨Nat.le_of_not_le hlarge, Word.add_addresses_lt hsize (Nat.le_of_lt hpage)⟩

end PageSpace.Fresh

/-! ## Mappers -/

namespace Settings

variable {settings : Settings}

/-- Settings by which a mapper over a page space of its own may be set up: they are right, their
pages are made of those of the operating system, and their size can be rounded up to these. -/
structure Reservable (settings : Settings) : Prop where
  valid : settings.validate = .ok ()
  osPage_le : Word.osPage ≤ settings.pageSize
  sum_lt : settings.reservedSize + Word.osPage < Word.limit

/-- The largest reservation of all, in pages of the operating system. -/
structure Largest (settings : Settings) : Prop where
  valid : settings.validate = .ok ()
  pageSize_eq : settings.pageSize = Word.osPage
  sum_eq : settings.reservedSize + Word.osPage = Word.limit

theorem Reservable.not_misfit (reservable : settings.Reservable) :
    ¬ (settings.validate ≠ .ok () ∨ settings.pageSize < Word.osPage) := fun h =>
  h.elim (fun hinvalid => hinvalid reservable.valid) (Nat.not_lt.mpr reservable.osPage_le)

theorem Largest.not_misfit (largest : settings.Largest) :
    ¬ (settings.validate ≠ .ok () ∨ settings.pageSize < Word.osPage) := fun h =>
  h.elim (fun hinvalid => hinvalid largest.valid)
    (Nat.not_lt.mpr (Nat.le_of_eq largest.pageSize_eq.symm))

theorem Reservable.not_largest (reservable : settings.Reservable) : ¬ settings.Largest :=
  fun largest => Nat.ne_of_lt reservable.sum_lt largest.sum_eq

/-- A reservation that cannot be rounded up to pages of the operating system is the largest of
all. -/
theorem largest_of_le (h : settings.validate = .ok ()) (hsize : settings.reservedSize < Word.limit)
    (hpage : Word.osPage ≤ settings.pageSize)
    (hsum : Word.limit ≤ settings.reservedSize + Word.osPage) : settings.Largest := by
  have valid := (validate_eq_ok_iff settings).mp h
  -- Size and limit are both whole pages apart, so there is room for one page between them.
  have hle : settings.pageSize ≤ settings.reservedSize :=
    Nat.le_of_dvd valid.reservedSize_pos valid.pageSize_dvd
  have hdvd : settings.pageSize ∣ Word.limit :=
    Word.dvd_limit_of_isPowerOfTwo valid.pageSize_power (Nat.lt_of_le_of_lt hle hsize)
  have hroom : settings.pageSize ≤ Word.limit - settings.reservedSize :=
    Nat.le_of_dvd (Nat.sub_pos_of_lt hsize) (Nat.dvd_sub hdvd valid.pageSize_dvd)
  exact ⟨h, by omega, by omega⟩

end Settings

namespace Mapper

variable {settings : Settings} {machine : Machine}

/-- How setting up a mapper by its settings alone ends. -/
inductive Ending (settings : Settings) : Except (Stop Refusal) (Mapper PageSpace) → Prop
  /-- There is a mapper, and nothing is committed. -/
  | ready {mapper : Mapper PageSpace} (reservable : settings.Reservable)
      (committed_eq : mapper.committed = .empty settings.regionCount)
      (unbacked : ∀ page, mapper.store.isCommitted page = false) : Ending settings (.ok mapper)
  /-- The settings are no use. -/
  | misfit (misfit : Misfit) (h : settings.validate ≠ .ok () ∨ settings.pageSize < Word.osPage) :
      Ending settings (.error (.error (.configuration misfit)))
  /-- Address space or memory is wanting. -/
  | wanting {stop : Stop Refusal} (reservable : settings.Reservable)
      (h : PageSpace.WantsMemory settings.usedSize settings.preCommitted stop) :
      Ending settings (.error stop)
  /-- The size cannot be rounded. -/
  | overflow (largest : settings.Largest) : Ending settings (.error (.fault .addOverflow))

namespace Ending

variable {result : Except (Stop Refusal) (Mapper PageSpace)}

theorem of_ok {mapper : Mapper PageSpace} (ending : Ending settings result)
    (h : result = .ok mapper) : mapper.committed = .empty settings.regionCount ∧
      ∀ page, mapper.store.isCommitted page = false := by
  subst h
  cases ending with
  | ready _ committed_eq unbacked => exact ⟨committed_eq, unbacked⟩

/-- The settings are blamed just if they are to blame. -/
theorem misfit_iff (ending : Ending settings result) :
    (∃ misfit, result = .error (.error (.configuration misfit))) ↔
      settings.validate ≠ .ok () ∨ settings.pageSize < Word.osPage := by
  cases ending with
  | ready reservable => exact ⟨nofun, fun h => absurd h reservable.not_misfit⟩
  | misfit misfit h => exact ⟨fun _ => h, fun _ => ⟨misfit, rfl⟩⟩
  | wanting reservable h =>
    refine ⟨?_, fun h => absurd h reservable.not_misfit⟩
    obtain ⟨cause, rfl⟩ | ⟨-, rfl⟩ := h <;> nofun
  | overflow largest => exact ⟨nofun, fun h => absurd h largest.not_misfit⟩

theorem of_outOfMemory {requested page : Nat} (ending : Ending settings result)
    (h : result = .error (.error (.outOfMemory requested page))) :
    settings.preCommitted = true ∧ requested = settings.usedSize ∧ page = 0 := by
  subst h
  cases ending with
  | wanting _ h =>
    obtain ⟨cause, hcause⟩ | ⟨hpinned, hmemory⟩ := h
    · cases hcause
    · cases hmemory
      exact ⟨hpinned, rfl, rfl⟩

theorem ne_uncommit (ending : Ending settings result) (cause : UncommitCause) :
    result ≠ .error (.error (.uncommit cause)) := by
  rintro rfl
  cases ending with
  | wanting _ h =>
    obtain ⟨_, hcause⟩ | ⟨-, hmemory⟩ := h
    · cases hcause
    · cases hmemory

theorem fault_iff (ending : Ending settings result) (fault : Fault) :
    result = .error (.fault fault) ↔ fault = .addOverflow ∧ settings.Largest := by
  constructor
  · rintro rfl
    cases ending with
    | wanting _ h =>
      obtain ⟨_, hcause⟩ | ⟨-, hmemory⟩ := h
      · cases hcause
      · cases hmemory
    | overflow largest => exact ⟨rfl, largest⟩
  · rintro ⟨rfl, largest⟩
    cases ending with
    | ready reservable => exact absurd largest reservable.not_largest
    | misfit _ h => exact absurd h largest.not_misfit
    | wanting reservable => exact absurd largest reservable.not_largest
    | overflow => rfl

end Ending

/-- A space that cannot be set up is the end of its mapper. -/
theorem reserve_eq_stopped (h : settings.validate = .ok ()) {stop : Stop Refusal}
    (hstop : Reservation.reserve settings.reservedSize settings.pageSize machine =
      ⟨.error stop, machine, []⟩) :
    reserve settings machine = ⟨.error stop, machine, []⟩ := by
  have valid := (Settings.validate_eq_ok_iff settings).mp h
  unfold reserve
  rw [h]
  exact Op.bind_run_error (PageSpace.reserve_eq_stopped valid.usedSize_le hstop)

theorem reserve_stopsFor (reservable : settings.Reservable)
    (hplace : ∀ total, machine.place total < Word.addressLimit) :
    (reserve settings machine).StopsFor
      (PageSpace.WantsMemory settings.usedSize settings.preCommitted) := by
  have valid := (Settings.validate_eq_ok_iff settings).mp reservable.valid
  unfold reserve
  rw [reservable.valid]
  refine Op.bind_stopsFor (PageSpace.reserve_stopsFor valid.usedSize_le ?_) ?_
  · exact Reservation.reserve_stopsFor ⟨Nat.ne_of_gt valid.reservedSize_pos,
      Word.isPowerOfTwo_iff.mpr valid.pageSize_power, reservable.osPage_le⟩ reservable.sum_lt hplace
  · intro space after _ hspace stop hstop
    have fresh := PageSpace.fresh (congrArg Run.result hspace)
    obtain ⟨mapper, hmapper⟩ := fresh.exists_create valid hplace after
    rw [hmapper] at hstop
    cases hstop

theorem reserve_ending (hsize : settings.reservedSize < Word.limit)
    (hplace : ∀ total, machine.place total < Word.addressLimit) :
    Ending settings (reserve settings machine).result := by
  cases hvalid : settings.validate with
  | error error =>
    rw [reserve, hvalid]
    exact .misfit _ (.inl (by simp [hvalid]))
  | ok =>
    have valid := (Settings.validate_eq_ok_iff settings).mp hvalid
    have hpower := Word.isPowerOfTwo_iff.mpr valid.pageSize_power
    have hnonzero := Nat.ne_of_gt valid.reservedSize_pos
    by_cases hpage : settings.pageSize < Word.osPage
    · rw [reserve_eq_stopped hvalid (Reservation.reserve_eq_refused hnonzero hpower hpage)]
      exact .misfit _ (.inr hpage)
    have hpage := Nat.le_of_not_lt hpage
    by_cases hsum : settings.reservedSize + Word.osPage < Word.limit
    · have reservable : settings.Reservable := ⟨hvalid, hpage, hsum⟩
      cases hresult : (reserve settings machine).result with
      | ok mapper =>
        rw [reserve_eq_reserveWith hvalid] at hresult
        obtain ⟨fresh, created⟩ := of_reserveWith_ok hresult
        exact .ready reservable created.committed_eq fresh.unbacked
      | error stop => exact .wanting reservable (reserve_stopsFor reservable hplace stop hresult)
    · have hsum := Nat.le_of_not_lt hsum
      rw [reserve_eq_stopped hvalid
        (Reservation.reserve_eq_overflow ⟨hnonzero, hpower, hpage⟩ hsum)]
      exact .overflow (Settings.largest_of_le hvalid hsize hpage hsum)

/-- Setting up a mapper is total but for one size. Whatever the machine refuses, there is a mapper
of which nothing is committed, or an error: the settings are no use, which is so just if they are
wrong or their pages too small, or address space is wanting, or else memory, which only a pinned
space asks for. Only for the largest reservation of all, in pages of the operating system, it is a
fault, and always the same. -/
theorem reserve_ends (hsize : settings.reservedSize < Word.limit)
    (hplace : ∀ total, machine.place total < Word.addressLimit) :
    (∀ mapper, (reserve settings machine).result = .ok mapper →
      mapper.committed = .empty settings.regionCount ∧
        ∀ page, mapper.store.isCommitted page = false) ∧
    ((∃ misfit, (reserve settings machine).result = .error (.error (.configuration misfit))) ↔
      settings.validate ≠ .ok () ∨ settings.pageSize < Word.osPage) ∧
    (∀ requested page,
      (reserve settings machine).result = .error (.error (.outOfMemory requested page)) →
      settings.preCommitted = true ∧ requested = settings.usedSize ∧ page = 0) ∧
    (∀ cause, (reserve settings machine).result ≠ .error (.error (.uncommit cause))) ∧
    ∀ fault, (reserve settings machine).result = .error (.fault fault) ↔
      fault = .addOverflow ∧ settings.Largest := by
  have ending := @reserve_ending settings machine hsize hplace
  exact ⟨fun _ => ending.of_ok, ending.misfit_iff, fun _ _ => ending.of_outOfMemory,
    ending.ne_uncommit, ending.fault_iff⟩

/-- Four regions on a machine that refuses nothing. -/
theorem reserve_ends_of_four_regions :
    ∃ mapper, (reserve .fourRegions .willing).result = .ok mapper ∧
      mapper.committed = .empty 4 ∧ ∀ page, mapper.store.isCommitted page = false := by
  have hplace : 65536 < Word.addressLimit := by decide
  have hends := @reserve_ends .fourRegions .willing (by decide) fun _ => hplace
  exact ⟨_, rfl, hends.1 _ rfl⟩

end Mapper

/-- All of the address space but one page, in pages of the operating system. -/
def Settings.wholeSpace : Settings :=
  { Settings.fourRegions with
    reservedSize := Word.limit - Word.osPage, usedSize := Word.limit - Word.osPage }

/-- The settings are right and the size is whole pages already, but to round it up is a fault on
every machine. With pages twice as large the size is rounded, and the machine has no such range. -/
theorem Mapper.reserve_faults_of_whole_space :
    Settings.wholeSpace.validate = .ok () ∧
    (∀ machine, (reserve .wholeSpace machine).result = .error (.fault .addOverflow)) ∧
    (reserve { Settings.wholeSpace with
        reservedSize := Word.limit - 4 * Word.osPage, usedSize := 0, pageSize := 2 * Word.osPage }
      .willing).result = .error (.error (.addressSpace
        (.unavailable (Word.limit - 2 * Word.osPage) .lengthOverflow))) :=
  ⟨rfl, fun _ => rfl, rfl⟩

end RegionBacking
