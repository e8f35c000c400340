import RegionBacking.PageStore
import RegionBacking.Proofs.Running

/-!
# The laws of page stores

A mapper relies on more than the signature of a page store. `LawfulStore` says what: which pages are
backed, what a call does to them, and that a call that is refused changes nothing. The laws speak of
the calls that a mapper makes: it commits pages none of which is backed and uncommits pages all of
which are. `StoreRun` is a run of such calls.
-/

namespace RegionBacking

/-! ## The effects of a store -/

/-- Whether a store may show an effect: it asks the operating system and writes to the log. -/
def Effect.isOfStore : Effect → Bool
  | .request _ => true
  | .record _ => true
  | _ => false

/-- Effects of a store, none of which is a call, an event, a placement or a notification. -/
def Quiet (trace : List Effect) : Prop := ∀ effect ∈ trace, effect.isOfStore = true

namespace Quiet

variable {trace : List Effect}

theorem nil : Quiet [] := fun _ h => absurd h List.not_mem_nil

theorem append {later : List Effect} (quiet : Quiet trace) (quiet' : Quiet later) :
    Quiet (trace ++ later) := by
  intro effect heffect
  rcases List.mem_append.mp heffect with h | h
  · exact quiet effect h
  · exact quiet' effect h

theorem of_records (h : ∀ effect ∈ trace, ∃ record, effect = .record record) : Quiet trace := by
  intro effect heffect
  obtain ⟨record, rfl⟩ := h effect heffect
  rfl

theorem calls_eq (quiet : Quiet trace) : Effect.calls trace = [] := by
  apply List.filterMap_eq_nil_iff.mpr
  intro effect heffect
  have hstore := quiet effect heffect
  -- Requests and records are no calls, and all other effects are excluded.
  cases effect <;> first | rfl | cases hstore

theorem notifications_eq (quiet : Quiet trace) : Effect.notifications trace = [] := by
  apply List.filterMap_eq_nil_iff.mpr
  intro effect heffect
  have hstore := quiet effect heffect
  cases effect <;> first | rfl | cases hstore

end Quiet

/-- Effects of calls of a store: nothing is placed, reported or told. -/
def CallsOnly (trace : List Effect) : Prop :=
  ∀ effect ∈ trace, effect.isOfStore = true ∨ ∃ call, effect = .call call

theorem CallsOnly.nil : CallsOnly [] := fun _ h => absurd h List.not_mem_nil

/-- Of calls of a store alone nothing is seen by who sees neither the calls nor the store. -/
theorem CallsOnly.filterMap_eq_nil {α : Type} {trace : List Effect} {view : Effect → Option α}
    (calls : CallsOnly trace) (hcall : ∀ call, view (.call call) = none)
    (hstore : ∀ effect : Effect, effect.isOfStore = true → view effect = none) :
    trace.filterMap view = [] := by
  apply List.filterMap_eq_nil_iff.mpr
  intro effect heffect
  rcases calls effect heffect with h | ⟨call, rfl⟩
  · exact hstore effect h
  · exact hcall call

/-- A call and what the store shows of it. -/
theorem Quiet.callsOnly {trace : List Effect} (quiet : Quiet trace) (call : StoreCall) :
    CallsOnly (.call call :: trace) := by
  intro effect heffect
  rcases List.mem_cons.mp heffect with rfl | hlater
  · exact .inr ⟨call, rfl⟩
  · exact .inl (quiet effect hlater)

/-- Nothing but a line of the log. -/
theorem CallsOnly.of_record (record : Record) : CallsOnly [.record record] := by
  intro effect heffect
  rw [List.mem_singleton.mp heffect]
  exact .inl rfl

/-! ## The laws -/

/-- Two states of a store have their pages at the same places. -/
structure SameGeometry {σ : Type} [PageStore σ] (before after : σ) : Prop where
  reservedSize_eq : PageStore.reservedSize after = PageStore.reservedSize before
  pageSize_eq : PageStore.pageSize after = PageStore.pageSize before
  pageStart_eq : PageStore.pageStart after = PageStore.pageStart before

theorem SameGeometry.refl {σ : Type} [PageStore σ] (store : σ) : SameGeometry store store :=
  ⟨rfl, rfl, rfl⟩

theorem SameGeometry.trans {σ : Type} [PageStore σ] {a b c : σ} (first : SameGeometry a b)
    (second : SameGeometry b c) : SameGeometry a c :=
  ⟨second.reservedSize_eq.trans first.reservedSize_eq,
    second.pageSize_eq.trans first.pageSize_eq, second.pageStart_eq.trans first.pageStart_eq⟩

/-- The number of whole pages of a store. -/
def PageStore.pages {σ : Type} [PageStore σ] (store : σ) : Nat :=
  PageStore.reservedSize store / PageStore.pageSize store

theorem SameGeometry.pages_eq {σ : Type} [PageStore σ] {before after : σ}
    (same : SameGeometry before after) : PageStore.pages after = PageStore.pages before := by
  rw [PageStore.pages, PageStore.pages, same.reservedSize_eq, same.pageSize_eq]

/-- What can be seen of a page store. -/
class StoreView (σ : Type) [PageStore σ] where
  /-- Whether a page is backed. -/
  backed : σ → Nat → Bool
  /-- The books of the store are in order. -/
  Sound : σ → Prop
  /-- Whether the pages below one can be committed, unless that is refused. -/
  Fits : σ → Nat → Prop
  /-- The store refuses nothing. -/
  Willing : σ → Prop

export StoreView (backed)

section view

variable {σ : Type} [PageStore σ] [StoreView σ]

/-- The pages `[start, stop)` of a store all are backed, or none of them is. -/
def AllBacked (store : σ) (status : Bool) (start stop : Nat) : Prop :=
  ∀ page, start ≤ page → page < stop → backed store page = status

/-- One state of a store comes after another one: its books are in order, and its pages are where
they were. -/
structure Succeeds (store after : σ) : Prop where
  sound : StoreView.Sound after
  geometry : SameGeometry store after
  fits_iff : ∀ stop, StoreView.Fits after stop ↔ StoreView.Fits store stop

/-- The pages `[start, stop)` became backed. -/
structure Acquired (store after : σ) (start stop : Nat) : Prop extends Succeeds store after where
  backed_eq : ∀ page, backed after page =
    (backed store page || decide (start ≤ page ∧ page < stop))
  /-- The addresses and the bytes of these pages are words. -/
  addressed : start < stop → stop ≤ PageStore.pages store →
    stop * PageStore.pageSize store < Word.limit ∧
    ∀ page, start ≤ page → page < stop → ∃ address, PageStore.pageStart store page = .ok address

/-- The pages `[start, stop)` are no longer backed. -/
structure Released (store after : σ) (start stop : Nat) : Prop extends Succeeds store after where
  backed_eq : ∀ page, backed after page =
    (backed store page && !decide (start ≤ page ∧ page < stop))

/-- One state of a store comes after another one, and the same pages are backed. -/
structure SameBacking (store after : σ) : Prop extends Succeeds store after where
  backed_eq : ∀ page, backed after page = backed store page

theorem Succeeds.refl {store : σ} (sound : StoreView.Sound store) : Succeeds store store :=
  ⟨sound, .refl store, fun _ => .rfl⟩

theorem Succeeds.trans {a b c : σ} (first : Succeeds a b) (second : Succeeds b c) :
    Succeeds a c :=
  ⟨second.sound, first.geometry.trans second.geometry,
    fun stop => (second.fits_iff stop).trans (first.fits_iff stop)⟩

/-- Nothing is acquired by an empty range. -/
theorem Acquired.empty {store : σ} {start stop : Nat} (sound : StoreView.Sound store)
    (h : stop ≤ start) : Acquired store store start stop where
  toSucceeds := .refl sound
  backed_eq page := by
    have hout : ¬ (start ≤ page ∧ page < stop) := by omega
    rw [decide_eq_false hout, Bool.or_false]
  addressed hlt := absurd hlt (by omega)

/-- Nothing is released by an empty range. -/
theorem Released.empty {store : σ} {start stop : Nat} (sound : StoreView.Sound store)
    (h : stop ≤ start) : Released store store start stop where
  toSucceeds := .refl sound
  backed_eq page := by
    have hout : ¬ (start ≤ page ∧ page < stop) := by omega
    rw [decide_eq_false hout, Bool.not_false, Bool.and_true]

theorem SameBacking.refl {store : σ} (sound : StoreView.Sound store) : SameBacking store store where
  toSucceeds := .refl sound
  backed_eq _ := rfl

/-- What was acquired stays so as long as the same pages are backed. -/
theorem Acquired.of_sameBacking {store middle after : σ} {start stop : Nat}
    (acquired : Acquired store middle start stop) (same : SameBacking middle after) :
    Acquired store after start stop where
  toSucceeds := acquired.toSucceeds.trans same.toSucceeds
  backed_eq page := (same.backed_eq page).trans (acquired.backed_eq page)
  addressed := acquired.addressed

/-- What can become of a store by itself leaves its books in order and the same pages backed. -/
def Harmless (between : σ → σ → Prop) : Prop :=
  ∀ {store after : σ}, between store after → StoreView.Sound store → SameBacking store after

end view

/-- How a store may stop a call for pages that are in the state that the call needs: it refuses, if
it is not willing, or the pages do not fit. -/
inductive Stop.Rejects (fits willing : Prop) : Stop Refusal → Prop where
  | refused (refusal : Refusal) (unwilling : ¬ willing) : Rejects fits willing (.error refusal)
  | unfit (fault : Fault) (unfit : ¬ fits) (hpages : fault.isOfPages = false) :
    Rejects fits willing (.fault fault)

/-- A store stops a call for pages that fit by a refusal. -/
theorem Stop.Rejects.exists_refusal {stop : Stop Refusal} {fits willing : Prop}
    (rejects : stop.Rejects fits willing) (h : fits) : ∃ refusal, stop = .error refusal := by
  cases rejects with
  | refused refusal => exact ⟨refusal, rfl⟩
  | unfit _ unfit => exact absurd h unfit

/-- A store that is willing does not refuse. -/
theorem Stop.Rejects.unwilling {refusal : Refusal} {fits willing : Prop}
    (rejects : (Stop.error refusal).Rejects fits willing) : ¬ willing := by
  cases rejects with
  | refused _ unwilling => exact unwilling

/-- The laws of a page store. -/
class LawfulStore (σ : Type) [PageStore σ] extends StoreView σ where
  /-- Backed pages fit. -/
  fits_of_backed : ∀ (store : σ) (page : Nat), Sound store → backed store page = true →
    Fits store (page + 1)
  /-- A commit of pages that are not backed backs them, or it stops and changes nothing. -/
  commit_spec : ∀ (store : σ) (start count : Nat), Sound store →
    AllBacked store false start (start + count) →
    ∃ result after trace, PageStore.commit start count store = ⟨result, after, trace⟩ ∧
      Quiet trace ∧
      match result with
      | .ok _ => Acquired store after start (start + count)
      | .error stop => after = store ∧ stop.Rejects (Fits store (start + count)) (Willing store)
  /-- An uncommit of backed pages gives them up, or it is refused and changes nothing; an uncommit
  of no pages is not refused. -/
  uncommit_spec : ∀ (store : σ) (start count : Nat), Sound store →
    AllBacked store true start (start + count) →
    ∃ result after trace, PageStore.uncommit start count store = ⟨result, after, trace⟩ ∧
      Quiet trace ∧
      match result with
      | .ok _ => Released store after start (start + count)
      | .error stop => after = store ∧ 0 < count ∧ stop.Rejects True (Willing store)
  /-- Pretouching leaves the same pages backed, also where it stops. -/
  pretouch_spec : ∀ (store : σ) (start count : Nat) (pretoucher : Pretoucher), Sound store →
    ∃ result after trace, PageStore.pretouch start count pretoucher store =
      ⟨result, after, trace⟩ ∧ Quiet trace ∧ SameBacking store after
  /-- Pretouching backed pages comes to its end, as long as the chunks are words. -/
  pretouch_ok : ∀ (store : σ) (start count : Nat) (pretoucher : Pretoucher), Sound store →
    0 < count → start + count + pretoucher.chunkPages (PageStore.pageSize store) < Word.limit →
    AllBacked store true start (start + count) →
    ∃ report, (PageStore.pretouch start count pretoucher store).result = .ok report

/-! ## Calls that stop -/

section stops

variable {σ : Type} [PageStore σ] {earlier trace later : List Effect} {store : σ}
  {stop : Stop Refusal}

/-- A call of a store stops. Whether a pass does may depend on who makes it. -/
def StoreCall.Stops (call : StoreCall) (store : σ) (stop : Stop Refusal) : Prop :=
  match call.kind with
  | .commit => (PageStore.commit call.start call.count store).result = .error stop
  | .uncommit => (PageStore.uncommit call.start call.count store).result = .error stop
  | .pretouch => ∃ pretoucher,
    (PageStore.pretouch call.start call.count pretoucher store).result = .error stop

/-- The last call that a store got stops. A call that stops leaves the store as it was, so that this
is seen when the call is made again of the store that is left. -/
def StoppedByStore (trace : List Effect) (store : σ) (stop : Stop Refusal) : Prop :=
  ∃ call, (Effect.calls trace).getLast? = some call ∧ call.Stops store stop

/-- What came before the last call makes no difference. -/
theorem StoppedByStore.after (stopped : StoppedByStore trace store stop) (earlier : List Effect) :
    StoppedByStore (earlier ++ trace) store stop := by
  obtain ⟨call, hcall, hstops⟩ := stopped
  refine ⟨call, ?_, hstops⟩
  rw [Effect.calls_append, List.getLast?_append, hcall]
  rfl

/-- Nor does what is shown behind it, other than calls. -/
theorem StoppedByStore.before (stopped : StoppedByStore trace store stop)
    (h : Effect.calls later = []) : StoppedByStore (trace ++ later) store stop := by
  obtain ⟨call, hcall, hstops⟩ := stopped
  exact ⟨call, by rwa [Effect.calls_append, h, List.append_nil], hstops⟩

end stops

/-! ## Runs of calls -/

/-- A call of a store, and whether the store came to its end and assured that all bytes of the pages
read as zero. -/
structure Answer where
  call : StoreCall
  zeroFilled : Bool

/-- Whether an answer assures that a page reads as zero. -/
def Answer.Zeroes (answer : Answer) (page : Nat) : Prop :=
  answer.call.kind = .commit ∧ answer.zeroFilled = true ∧
    answer.call.start ≤ page ∧ page < answer.call.start + answer.call.count

/-- No call of a kind is among those that were answered. -/
def Without (kind : StoreCallKind) (answers : List Answer) : Prop :=
  ∀ answer ∈ answers, answer.call.kind ≠ kind

namespace Without

variable {kind : StoreCallKind} {answers later : List Answer}

theorem nil : Without kind [] := fun _ h => absurd h List.not_mem_nil

theorem singleton {other : StoreCallKind} (h : other ≠ kind) (start count : Nat)
    (zeroFilled : Bool) : Without kind [⟨⟨other, start, count⟩, zeroFilled⟩] := by
  intro answer hanswer
  rwa [List.mem_singleton.mp hanswer]

theorem append (first : Without kind answers) (second : Without kind later) :
    Without kind (answers ++ later) := by
  intro answer hanswer
  rcases List.mem_append.mp hanswer with h | h
  · exact first answer h
  · exact second answer h

end Without

/-- What a commit was answered. -/
def Answer.ofCommit {σ : Type} (start count : Nat) (run : Run Refusal σ Bool) : Answer :=
  ⟨⟨.commit, start, count⟩, match run.result with
    | .ok zeroFilled => zeroFilled
    | .error _ => false⟩

theorem Answer.Zeroes.of_commit {σ : Type} {start count page : Nat} {run : Run Refusal σ Bool}
    (h : (Answer.ofCommit start count run).Zeroes page) :
    run.result = .ok true ∧ start ≤ page ∧ page < start + count := by
  obtain ⟨-, hzero, hrange⟩ := h
  refine ⟨?_, hrange⟩
  unfold Answer.ofCommit at hzero
  cases hresult : run.result with
  | ok zeroFilled =>
    rw [hresult] at hzero
    exact congrArg Except.ok hzero
  | error stop =>
    rw [hresult] at hzero
    cases hzero

/-- A run of calls that take a store from one state to another. Only pages that are not backed are
committed, and only pages that are backed are uncommitted. -/
inductive StoreRun {σ : Type} [PageStore σ] [LawfulStore σ] : σ → List Answer → σ → Prop where
  | done (store : σ) : StoreRun store [] store
  | commit {store after : σ} {later : List Answer} (start count : Nat)
      (unbacked : AllBacked store false start (start + count))
      (rest : StoreRun (PageStore.commit start count store).state later after) :
      StoreRun store (.ofCommit start count (PageStore.commit start count store) :: later) after
  | uncommit {store after : σ} {later : List Answer} (start count : Nat)
      (backed : AllBacked store true start (start + count))
      (rest : StoreRun (PageStore.uncommit start count store).state later after) :
      StoreRun store (⟨⟨.uncommit, start, count⟩, false⟩ :: later) after
  | pretouch {store after : σ} {later : List Answer} (start count : Nat) (pretoucher : Pretoucher)
      (rest : StoreRun (PageStore.pretouch start count pretoucher store).state later after) :
      StoreRun store (⟨⟨.pretouch, start, count⟩, false⟩ :: later) after

namespace StoreRun

variable {σ : Type} [PageStore σ] [LawfulStore σ] {a b c : σ} {earlier later : List Answer}

theorem trans (first : StoreRun a earlier b) (second : StoreRun b later c) :
    StoreRun a (earlier ++ later) c := by
  induction first with
  | done => exact second
  | commit start count unbacked _ ih => exact .commit start count unbacked (ih second)
  | uncommit start count backed _ ih => exact .uncommit start count backed (ih second)
  | pretouch start count pretoucher _ ih => exact .pretouch start count pretoucher (ih second)

theorem snoc_commit (run : StoreRun a earlier b) (start count : Nat)
    (unbacked : AllBacked b false start (start + count)) :
    StoreRun a (earlier ++ [.ofCommit start count (PageStore.commit start count b)])
      (PageStore.commit start count b).state :=
  run.trans (.commit start count unbacked (.done _))

theorem snoc_uncommit (run : StoreRun a earlier b) (start count : Nat)
    (backed : AllBacked b true start (start + count)) :
    StoreRun a (earlier ++ [⟨⟨.uncommit, start, count⟩, false⟩])
      (PageStore.uncommit start count b).state :=
  run.trans (.uncommit start count backed (.done _))

theorem snoc_pretouch (run : StoreRun a earlier b) (start count : Nat) (pretoucher : Pretoucher) :
    StoreRun a (earlier ++ [⟨⟨.pretouch, start, count⟩, false⟩])
      (PageStore.pretouch start count pretoucher b).state :=
  run.trans (.pretouch start count pretoucher (.done _))

end StoreRun

end RegionBacking
