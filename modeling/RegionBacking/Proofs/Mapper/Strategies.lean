import RegionBacking.Proofs.Mapper.Contents
import RegionBacking.Proofs.Mapper.Counting
import RegionBacking.Proofs.Mapper.OnePage

/-!
# Where both strategies fit

Settings whose regions take up one page each leave it open by which strategy a mapper divides its
regions into pages. Two mappers, one of each kind, that are set up alike and driven alike stay
alike: every call ends for both in the same way and shows the same (`Twins.act_agrees`).
What is done to them has to be granted to both of them, for a range of pages may be refused at once
where its pages are not refused one by one, and the regions that are committed have to lie in the
used part, behind which the one finds out before anything is done and the other one on its way.
-/

namespace RegionBacking

namespace PageSpace

variable {space : PageSpace}

/-- What a machine refuses does not change when a byte is written. -/
theorem Willing.write (willing : space.Willing) (address : Nat) (value : UInt8) :
    ((space.write? address value).getD space).Willing := by
  unfold write?
  cases space.machine.memory.write? address value with
  | none => exact willing
  | some memory => exact willing

end PageSpace

namespace Mapper

variable {mapper large small a b : Mapper PageSpace} {usable : Nat}

/-! ## What is done to a mapper -/

/-- What is done to a mapper and its memory from outside. -/
inductive Act where
  /-- A call. -/
  | call (call : Call)
  /-- A byte is written, if it is accessible. -/
  | write (address : Nat) (value : UInt8)
  /-- A listener comes or goes. -/
  | listener (listener : Listener)
  /-- Other nodes are set. -/
  | nodes (nodes : Nodes)

/-- The operation of an act. -/
def Act.run : Act → Op Refusal (Mapper PageSpace) Unit
  | .call c => c.run
  | .write address value => Op.modify (·.poke address value)
  | .listener other => Op.modify fun mapper => { mapper with listener := other }
  | .nodes others => Op.modify (·.withNodes others)

/-- An act keeps to the used part of a mapper whose first `usable` regions can be committed: none of
the regions behind these is to be committed. -/
structure Act.Within (usable : Nat) (act : Act) (mapper : Mapper PageSpace) : Prop where
  inWords : ∀ call, act = .call call → call.InWords
  le_usable : ∀ start count pretoucher, act = .call (.commit start count pretoucher) → 0 < count →
    start + count ≤ mapper.regionCount → start + count ≤ usable

/-- An act is fair to two mappers if it keeps to the used part and neither of them is refused. -/
structure Act.Fair (usable : Nat) (act : Act) (large small : Mapper PageSpace) : Prop
    extends act.Within usable large where
  granted_large : (act.run large).Granted
  granted_small : (act.run small).Granted

/-- What becomes of two mappers that take the same acts, all of them fair. -/
inductive Abreast (usable : Nat) (large small : Mapper PageSpace) :
    Mapper PageSpace → Mapper PageSpace → Prop where
  | start : Abreast usable large small large small
  | act {a b : Mapper PageSpace} (earlier : Abreast usable large small a b) (act : Act)
    (fair : act.Fair usable a b) : Abreast usable large small (act.run a).state (act.run b).state

/-- An act leaves the books of a mapper in order. -/
theorem Act.continues (sound : mapper.Sound) (spacious : mapper.Spacious) (act : Act)
    (inWords : ∀ call, act = .call call → call.InWords) :
    Continues mapper (act.run mapper).state := by
  cases act with
  | call call =>
    obtain ⟨answers, orderly⟩ := call_orderly sound spacious call (inWords call rfl)
    exact orderly.continues
  | write address value =>
    have hmachine : ∃ machine : Machine,
        (mapper.store.write? address value).getD mapper.store = { mapper.store with machine } := by
      cases hwrite : mapper.store.write? address value with
      | none => exact ⟨mapper.store.machine, rfl⟩
      | some after =>
        obtain ⟨machine, hafter, -⟩ := PageSpace.of_write hwrite
        exact ⟨machine, hafter⟩
    obtain ⟨machine, hafter⟩ := hmachine
    have same : SameBacking mapper.store ((Act.write address value).run mapper).state.store := by
      show SameBacking mapper.store ((mapper.store.write? address value).getD mapper.store)
      rw [hafter]
      exact PageSpace.sameBacking_of_machine sound.store_sound machine
    exact ⟨sound.of_sameBacking rfl rfl same, same.toSucceeds, rfl, rfl⟩
  | listener listener => exact ⟨sound.congr rfl rfl rfl, .refl sound.store_sound, rfl, rfl⟩
  | nodes nodes => exact ⟨sound.congr rfl rfl rfl, .refl sound.store_sound, rfl, rfl⟩

/-- A machine that refuses nothing does so after an act as well. -/
theorem Act.willing (sound : mapper.Sound) (spacious : mapper.Spacious) (act : Act)
    (inWords : ∀ call, act = .call call → call.InWords) (willing : mapper.store.Willing) :
    (act.run mapper).state.store.Willing := by
  cases act with
  | call call =>
    obtain ⟨answers, orderly⟩ := call_orderly sound spacious call (inWords call rfl)
    exact orderly.stores.willing sound.store_sound willing
  | write address value => exact willing.write address value
  | listener listener => exact willing
  | nodes nodes => exact willing

/-- Such a machine refuses no act. -/
theorem Act.granted (sound : mapper.Sound) (hsize : mapper.store.reservation.size < Word.limit)
    (act : Act) (inWords : ∀ call, act = .call call → call.InWords)
    (willing : mapper.store.Willing) : (act.run mapper).Granted := by
  cases act with
  | call call =>
    have chunked : mapper.Chunked call.pretoucher := fun worker hworker =>
      PageSpace.chunk_lt_word sound.store_sound hsize (inWords call rfl worker hworker)
    exact sound.not_refused chunked willing
  | write address value => exact .of_ok rfl
  | listener listener => exact .of_ok rfl
  | nodes nodes => exact .of_ok rfl

/-! ## Mappers of both kinds -/

/-- Two mappers that are alike, one whose regions have pages of their own and one whose regions
share pages, one region on each page. -/
structure Twins (usable : Nat) (large small : Mapper PageSpace) : Prop where
  whole : WholeBooks 1 large
  shared : ∃ references, SharedBooks 1 references small
  alike : large.Alike small
  /-- The first `usable` pages can be committed. -/
  fits : large.store.Fits usable
  size_lt : large.store.reservation.size < Word.limit

namespace Twins

theorem sound_large (twins : Twins usable large small) : large.Sound := .large 1 twins.whole

theorem sound_small (twins : Twins usable large small) : small.Sound := by
  obtain ⟨references, books⟩ := twins.shared
  exact .small 1 references books

theorem size_lt_small (twins : Twins usable large small) :
    small.store.reservation.size < Word.limit := by
  rw [twins.alike.store.reservation_eq]
  exact twins.size_lt

theorem spacious_large (twins : Twins usable large small) : large.Spacious := fun _ _ _ hworker =>
  PageSpace.chunk_lt_word twins.sound_large.store_sound twins.size_lt hworker

theorem spacious_small (twins : Twins usable large small) : small.Spacious := fun _ _ _ hworker =>
  PageSpace.chunk_lt_word twins.sound_small.store_sound twins.size_lt_small hworker

theorem next (twins : Twins usable large small) (hlarge : Continues large a)
    (hsmall : Continues small b) (alike : a.Alike b) : Twins usable a b := by
  obtain ⟨references, books⟩ := twins.shared
  refine ⟨?_, ?_, alike, (hlarge.succeeds.fits_iff usable).mpr twins.fits, ?_⟩
  · exact hlarge.sound.wholeBooks
      (hlarge.shape_eq.trans (congrArg Strategy.shape twins.whole.strategy_eq))
  · exact hsmall.sound.sharedBooks
      (hsmall.shape_eq.trans (congrArg Strategy.shape books.strategy_eq))
  · have hsize : a.store.reservation.size = large.store.reservation.size :=
      hlarge.succeeds.geometry.reservedSize_eq
    rw [hsize]
    exact twins.size_lt

/-- A commit that is fair agrees. -/
theorem commit_agrees (twins : Twins usable large small) {start count : Nat}
    {pretoucher : Option Pretoucher}
    (fair : (Act.call (.commit start count pretoucher)).Fair usable large small) :
    Agrees (commitRegions start count pretoucher large)
      (commitRegions start count pretoucher small) := by
  obtain ⟨references, books⟩ := twins.shared
  have hlarge : (commitRegions start count pretoucher large).Granted := fair.granted_large
  have hsmall : (commitRegions start count pretoucher small).Granted := fair.granted_small
  apply commitRegions_agrees twins.alike
  intro hcount ready
  have hrefuses : ∀ refusal (mapper : Mapper PageSpace), ∃ refusal',
      (reportFailure start count refusal mapper).result = .error (.error refusal') :=
    fun refusal mapper => ⟨refusal, rfl⟩
  rw [ready.commitRegions_eq, if_neg (Nat.ne_of_gt hcount)] at hlarge
  rw [(twins.alike.ready ready).commitRegions_eq, if_neg (Nat.ne_of_gt hcount)] at hsmall
  have hback := Op.granted_of_recover hrefuses (Op.granted_of_bind hlarge)
  have hback' := Op.granted_of_recover hrefuses (Op.granted_of_bind hsmall)
  rw [backRegions_large twins.whole.strategy_eq] at hback ⊢
  rw [backRegions_small books.strategy_eq] at hback' ⊢
  have chunked : large.Chunked pretoucher := fun worker hworker =>
    twins.spacious_large 1 twins.whole.strategy_eq worker (fair.inWords _ rfl worker hworker)
  have hused := fair.le_usable start count pretoucher rfl hcount ready.le_size
  exact commitOnePage_agrees twins.alike twins.whole books hcount ready (twins.fits.mono hused)
    chunked hback hback'

/-- An uncommit that is fair agrees. -/
theorem uncommit_agrees (twins : Twins usable large small) {start count : Nat}
    (fair : (Act.call (.uncommit start count)).Fair usable large small) :
    Agrees (uncommitRegions start count large) (uncommitRegions start count small) := by
  obtain ⟨references, books⟩ := twins.shared
  have hlarge : (uncommitRegions start count large).Granted := fair.granted_large
  have hsmall : (uncommitRegions start count small).Granted := fair.granted_small
  apply uncommitRegions_agrees twins.alike
  intro ready
  rw [ready.uncommitRegions_eq] at hlarge
  rw [(twins.alike.ready ready).uncommitRegions_eq] at hsmall
  have hback := Op.granted_of_bind hlarge
  have hback' := Op.granted_of_bind hsmall
  unfold unbackRegions at hback hback' ⊢
  rw [Op.get_bind, twins.whole.strategy_eq] at hback ⊢
  rw [Op.get_bind, books.strategy_eq] at hback' ⊢
  exact uncommitOnePage_agrees twins.alike twins.whole books ready hback hback'

theorem act_agrees (twins : Twins usable large small) {act : Act}
    (fair : act.Fair usable large small) : Agrees (act.run large) (act.run small) := by
  have alike := twins.alike
  cases act with
  | call call =>
    cases call with
    | commit start count pretoucher => exact twins.commit_agrees fair
    | uncommit start count => exact twins.uncommit_agrees fair
  | write address value =>
    exact ⟨rfl, ⟨⟨alike.regionSize_eq, alike.memoryKind_eq, alike.alwaysPretouch_eq,
      alike.activity_eq, alike.listener_eq⟩, alike.store.write address value, alike.committed_eq,
      alike.nodes_eq⟩, rfl⟩
  | listener listener =>
    exact ⟨rfl, ⟨⟨alike.regionSize_eq, alike.memoryKind_eq, alike.alwaysPretouch_eq,
      alike.activity_eq, rfl⟩, alike.store, alike.committed_eq, alike.nodes_eq⟩, rfl⟩
  | nodes nodes =>
    exact ⟨rfl, ⟨⟨alike.regionSize_eq, alike.memoryKind_eq, alike.alwaysPretouch_eq,
      alike.activity_eq, alike.listener_eq⟩, alike.store, alike.committed_eq, rfl⟩, rfl⟩

/-- Twins that take a fair act are twins again. -/
theorem act (twins : Twins usable large small) {act : Act} (fair : act.Fair usable large small) :
    Twins usable (act.run large).state (act.run small).state := by
  exact twins.next (act.continues twins.sound_large twins.spacious_large fair.inWords)
    (act.continues twins.sound_small twins.spacious_small fair.inWords)
    (twins.act_agrees fair).related

theorem abreast (twins : Twins usable large small) (h : Abreast usable large small a b) :
    Twins usable a b := by
  induction h with
  | start => exact twins
  | act _ act fair ih => exact ih.act fair

/-- Where the machines refuse nothing at first, they never do. -/
theorem abreast_willing (twins : Twins usable large small) (h : Abreast usable large small a b)
    (willing : large.store.Willing) (willing' : small.store.Willing) :
    a.store.Willing ∧ b.store.Willing := by
  induction h with
  | start => exact ⟨willing, willing'⟩
  | act earlier act fair ih =>
    have twins := twins.abreast earlier
    exact ⟨act.willing twins.sound_large twins.spacious_large fair.inWords ih.1,
      act.willing twins.sound_small twins.spacious_small fair.inWords ih.2⟩

/-- Where the machines refuse nothing, an act is fair if it keeps to the used part. -/
theorem fair_of_willing (twins : Twins usable large small) (willing : large.store.Willing)
    (willing' : small.store.Willing) {act : Act} (within : act.Within usable large) :
    act.Fair usable large small where
  toWithin := within
  granted_large := act.granted twins.sound_large twins.size_lt within.inWords willing
  granted_small := act.granted twins.sound_small twins.size_lt_small within.inWords willing'

end Twins

/-! ## Setting up -/

variable {settings : Settings} {usedSize : Nat} {memoryKind : MemoryKind} {pinned : Bool}
  {machine : Machine}

/-- Both kinds of mapper are set up over the same space. -/
theorem store_eq_of_reserveWith
    (hlarge : (reserveWith settings usedSize memoryKind pinned .large machine).result = .ok large)
    (hsmall : (reserveWith settings usedSize memoryKind pinned .small machine).result = .ok small) :
    large.store = small.store := by
  obtain ⟨space, _, _, hspace, hlarge⟩ := Op.of_bind_ok hlarge
  obtain ⟨space', _, _, hspace', hsmall⟩ := Op.of_bind_ok hsmall
  cases hspace.symm.trans hspace'
  obtain ⟨-, strategy, rfl⟩ := of_createWith_ok hlarge
  obtain ⟨-, strategy', rfl⟩ := of_createWith_ok hsmall
  rfl

theorem twins_of_reserveWith
    (hsize : settings.regionSize = settings.pageSize * settings.commitFactor)
    (hlarge : (reserveWith settings usedSize memoryKind pinned .large machine).result = .ok large)
    (hsmall : (reserveWith settings usedSize memoryKind pinned .small machine).result = .ok small) :
    Twins (Word.divCeil usedSize settings.pageSize) large small := by
  have inUse := inUse_of_reserveWith hlarge
  have inUse' := inUse_of_reserveWith hsmall
  -- Both mappers are set up over the same space.
  obtain ⟨space, _, _, hspace, hlarge⟩ := Op.of_bind_ok hlarge
  obtain ⟨space', _, _, hspace', hsmall⟩ := Op.of_bind_ok hsmall
  cases hspace.symm.trans hspace'
  have hfresh := PageSpace.fresh (congrArg Run.result hspace)
  obtain ⟨created, strategy, rfl⟩ := of_createWith_ok hlarge
  obtain ⟨created', strategy', rfl⟩ := of_createWith_ok hsmall
  have whole := created.wholeBooks (.refl inUse.sound)
  have shared := created'.sharedBooks (.refl inUse'.sound)
  obtain ⟨_, _, hpages⟩ := created.strategy_of
  obtain ⟨hgranule, -, -⟩ := Strategy.pagesPerRegion?_eq_ok hpages
  rw [hsize, Nat.div_self hgranule] at whole shared
  have hdvd := (Settings.pageSize_dvd_reservedSize created.valid).2
  exact ⟨whole, shared, ⟨⟨rfl, rfl, rfl, rfl, rfl⟩, .refl space, rfl, rfl⟩,
    fits_usable hfresh hdvd created'.limit_lt, inUse.size_lt⟩

/-- Where both strategies fit they make no difference. Two mappers, one of each kind, that were set
up alike and took the same fair acts are alike: they have the same committed regions, counters and
nodes, over spaces with the same committed and dirty pages and the same bytes. Whatever fair act is
done to them next, it ends for both in the same way and shows the same placements, passes over
pages, events and notifications, in the same order. If the machine refuses nothing, then every act
that keeps to the used part is fair. -/
theorem strategies_agree_throughout
    (hsize : settings.regionSize = settings.pageSize * settings.commitFactor)
    (hlarge : (reserveWith settings usedSize memoryKind pinned .large machine).result = .ok large)
    (hsmall : (reserveWith settings usedSize memoryKind pinned .small machine).result = .ok small)
    (h : Abreast (Word.divCeil usedSize settings.pageSize) large small a b) :
    a.Alike b ∧
    (∀ act : Act, act.Fair (Word.divCeil usedSize settings.pageSize) a b →
      Agrees (act.run a) (act.run b)) ∧
    (large.store.Willing → ∀ act : Act, act.Within (Word.divCeil usedSize settings.pageSize) a →
      act.Fair (Word.divCeil usedSize settings.pageSize) a b) := by
  have first := twins_of_reserveWith hsize hlarge hsmall
  have twins := first.abreast h
  refine ⟨twins.alike, fun act fair => twins.act_agrees fair, fun willing act within => ?_⟩
  have willing' : small.store.Willing := store_eq_of_reserveWith hlarge hsmall ▸ willing
  obtain ⟨hwilling, hwilling'⟩ := first.abreast_willing h willing willing'
  exact twins.fair_of_willing hwilling hwilling' within

end Mapper

/-- Two pages of a reservation, each of which backs a region of its own. -/
def Settings.twoPages : Settings := { Settings.fourRegions with regionSize := 4096 }

/-- Two regions are committed with a pass over their pages; then both are uncommitted. -/
theorem Mapper.strategies_agree_of_two_pages :
    ∃ large small,
      (reserveWith .twoPages 8192 .heap false .large .willing).result = .ok large ∧
      (reserveWith .twoPages 8192 .heap false .small .willing).result = .ok small ∧
      Agrees
        ((Act.call (.uncommit 0 2)).run
          ((Act.call (.commit 0 2 (some ⟨2, 4096⟩))).run large).state)
        ((Act.call (.uncommit 0 2)).run
          ((Act.call (.commit 0 2 (some ⟨2, 4096⟩))).run small).state) := by
  refine ⟨_, _, rfl, rfl, ?_⟩
  refine (@strategies_agree_throughout _ _ _ _ .twoPages 8192 .heap false .willing rfl rfl rfl
    (.act .start (.call (.commit 0 2 (some ⟨2, 4096⟩))) ?fairCommit)).2.1
    (.call (.uncommit 0 2)) ?fairUncommit
  case fairCommit =>
    refine ⟨⟨?_, ?_⟩, .of_ok (?_ : _ = Except.ok ()), .of_ok (?_ : _ = Except.ok ())⟩
    · rintro call ⟨⟩
      decide
    · rintro start count pretoucher ⟨⟩
      decide +kernel
    · decide +kernel
    · decide +kernel
  case fairUncommit =>
    refine ⟨⟨?_, ?_⟩, .of_ok (?_ : _ = Except.ok ()), .of_ok (?_ : _ = Except.ok ())⟩
    · rintro call ⟨⟩
      decide
    · rintro start count pretoucher ⟨⟩
    · decide +kernel
    · decide +kernel

end RegionBacking
