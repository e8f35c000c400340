import RegionBacking.Proofs.Mapper.Creation
import RegionBacking.Proofs.Mapper.Keeping
import RegionBacking.Proofs.Stores.Transcripts

/-!
# The references of shared pages, over any store

The bits of the regions and the references of the pages are what a mapper keeps itself, and it keeps
them in step whatever its store does: a region is counted before its bit is set, and where a call
stops, it stops between two regions (`SharedTable`, `Reachable.sharedTable`). So here the store may
answer what it likes, and may change by itself in any way. `Underway` is all that is known of a
batch of commits that has come to one of its regions.
-/

namespace RegionBacking.Mapper

variable {σ : Type} {mapper after : Mapper σ} {regionsPerPage region : Nat}
  {references : GranuleTable}

theorem SharedTable.references?_eq (table : SharedTable regionsPerPage references mapper)
    (hregion : region < mapper.committed.size) : mapper.references? (region / regionsPerPage) =
      some (mapper.committed.residents regionsPerPage (region / regionsPerPage)) := by
  rw [← table.entry_eq, references?, table.strategy_eq]
  exact if_pos (table.page_lt hregion)

/-- What a mapper knows of its regions: how they lie on pages, with the references, and the bits. -/
def record (mapper : Mapper σ) : Strategy × Bitmap := (mapper.strategy, mapper.committed)

theorem aside_record : Aside (record : Mapper σ → Strategy × Bitmap) where
  store_eq _ _ := rfl
  nodes_eq _ _ := rfl
  activity_eq _ _ := rfl

theorem SharedTable.of_record_eq (table : SharedTable regionsPerPage references mapper)
    (h : after.record = mapper.record) : SharedTable regionsPerPage references after :=
  table.congr (congrArg Prod.fst h) (congrArg Prod.snd h)

variable [PageStore σ]

/-! ## What a part of a batch asks the store -/

/-- A part of a batch leads from one mapper to another: its calls were answered by the store, and
the listener was not notified. -/
structure Serves (mapper after : Mapper σ) (answers : List Answer) (trace : List Effect) :
    Prop where
  transcript : Transcript mapper.store answers after.store
  calls_eq : Effect.calls trace = answers.map (·.call)
  notifications_eq : Effect.notifications trace = []

namespace Serves

variable {last : Mapper σ} {answers answers' : List Answer} {trace trace' : List Effect}

theorem trans (first : Serves mapper after answers trace)
    (second : Serves after last answers' trace') :
    Serves mapper last (answers ++ answers') (trace ++ trace') where
  transcript := first.transcript.trans second.transcript
  calls_eq := by rw [Effect.calls_append, first.calls_eq, second.calls_eq, List.map_append]
  notifications_eq := by
    rw [Effect.notifications_append, first.notifications_eq, second.notifications_eq,
      List.append_nil]

theorem silently (hstore : after.store = mapper.store) (silent : Silent trace) :
    Serves mapper after [] trace where
  transcript := hstore ▸ .done _
  calls_eq := silent.calls_eq
  notifications_eq := silent.notifications_eq

/-- A call with what the store shows of it. -/
theorem of_quiet {answer : Answer} (transcript : Transcript mapper.store [answer] after.store)
    (quiet : Quiet trace) : Serves mapper after [answer] (.call answer.call :: trace) where
  transcript := transcript
  calls_eq := congrArg (answer.call :: ·) quiet.calls_eq
  notifications_eq := quiet.notifications_eq

end Serves

/-- Pages that could be placed were placed, whatever the store says of their addresses. -/
theorem of_placePages_ok {start count : Nat} {trace : List Effect}
    (h : placePages start count region mapper = ⟨.ok (), after, trace⟩) :
    after.store = mapper.store ∧ Silent trace ∧ Posts mapper after 1 0 trace := by
  unfold placePages at h
  rw [Op.get_bind] at h
  cases hplaced : mapper.memoryKind.isPlaced with
  | false =>
    rw [hplaced, if_neg Bool.false_ne_true] at h
    cases h
    refine ⟨rfl, .nil, (Activity.pretouch_zero _).symm, rfl, rfl, ?_, rfl⟩
    rw [hplaced]
    rfl
  | true =>
    rw [hplaced, if_pos rfl] at h
    obtain ⟨_, _, _, _, hsize, hrest, rfl⟩ := Op.of_bind_run_ok h
    obtain ⟨-, rfl, rfl⟩ := Op.of_checked_ok hsize
    obtain ⟨_, _, _, _, haddress, hlast, rfl⟩ := Op.of_bind_run_ok hrest
    obtain ⟨-, rfl, rfl⟩ := Op.of_checked_ok haddress
    cases hlast
    refine ⟨rfl, ⟨rfl, rfl⟩, (Activity.pretouch_zero _).symm, rfl, rfl, ?_, rfl⟩
    rw [hplaced]
    rfl

variable [QuietStore σ] {start count : Nat} {trace : List Effect}

/-- A commit of the store that came to its end. -/
theorem of_commitPages_ok {zeroFilled : Bool}
    (h : commitPages start count mapper = ⟨.ok zeroFilled, after, trace⟩) :
    Serves mapper after [⟨⟨.commit, start, count⟩, zeroFilled⟩] trace ∧
      Posts mapper after 0 0 trace := by
  rw [commitPages_run] at h
  have quiet := QuietStore.commit_quiet start count mapper.store
  match hrun : PageStore.commit start count mapper.store with
  | ⟨result, store, shown⟩ =>
    rw [hrun] at h quiet
    cases h
    have transcript : Transcript mapper.store [⟨⟨.commit, start, count⟩, zeroFilled⟩]
        (mapper.withStore store).store := .commit hrun (.done _)
    exact ⟨.of_quiet transcript quiet, .of_callsOnly (quiet.callsOnly _) rfl rfl rfl⟩

/-! ## Committing one region -/

theorem of_acquirePage_ok {page : Nat} {progress next : Progress}
    (h : acquirePage page region progress mapper = ⟨.ok next, after, trace⟩) :
    ∃ zeroFilled, next = ⟨page :: progress.fresh, progress.zeroFilled && zeroFilled⟩ ∧
      Serves mapper after [⟨⟨.commit, page, 1⟩, zeroFilled⟩] trace ∧ Posts mapper after 1 0 trace := by
  obtain ⟨zeroFilled, middle, called, _, hcommit, hrest, rfl⟩ := Op.of_bind_run_ok h
  obtain ⟨_, _, placed, _, hplace, hnoted, rfl⟩ := Op.of_bind_run_ok hrest
  cases hnoted
  obtain ⟨serves, posts⟩ := of_commitPages_ok hcommit
  obtain ⟨hstore, silent, posts'⟩ := of_placePages_ok hplace
  refine ⟨zeroFilled, rfl, ?_, ?_⟩
  · have hquietly : Serves middle after []
        (placed ++ [.record (.pageAcquired page (after.pageAddress page) region)]) :=
      .silently hstore (silent.append ⟨rfl, rfl⟩)
    exact serves.trans hquietly
  · exact posts.trans (posts'.trans (.of_callsOnly (.of_record _) rfl rfl rfl))

/-- How a batch goes on by a region, whose page had so many references before it. -/
inductive Progress.Takes (page residents : Nat) (progress : Progress) :
    List Answer → Progress → Prop where
  | fresh (zeroFilled : Bool) (vacant : residents = 0) :
    Takes page residents progress [⟨⟨.commit, page, 1⟩, zeroFilled⟩]
      ⟨page :: progress.fresh, progress.zeroFilled && zeroFilled⟩
  | again (needed : residents ≠ 0) (latest : progress.fresh.head? = some page) :
    Takes page residents progress [] progress
  | shared (needed : residents ≠ 0) (earlier : progress.fresh.head? ≠ some page) :
    Takes page residents progress [] { progress with zeroFilled := false }

namespace SharedTable

/-- A region is counted and its bit is set, or neither of the two is done. -/
theorem commitRegion_cases (table : SharedTable regionsPerPage references mapper)
    (hregion : region < mapper.committed.size) (hclear : mapper.committed.bit region = false)
    (progress : Progress) :
    (∃ next after references' answers trace,
      commitRegion regionsPerPage progress region mapper = ⟨.ok next, after, trace⟩ ∧
      SharedTable regionsPerPage references' after ∧
      after.committed = mapper.committed.fill region (region + 1) ∧
      progress.Takes (region / regionsPerPage)
        (mapper.committed.residents regionsPerPage (region / regionsPerPage)) answers next ∧
      Serves mapper after answers trace ∧ Posts mapper after answers.length 0 trace) ∨
    (∃ stop after trace,
      commitRegion regionsPerPage progress region mapper = ⟨.error stop, after, trace⟩ ∧
      SharedTable regionsPerPage references after) := by
  have hpage := table.page_lt hregion
  have hcounted := table.entry_eq (region / regionsPerPage)
  have hadd : SharedTable _ _ (mapper.withRegion true regionsPerPage references region _) :=
    table.add hregion hclear rfl rfl
  unfold commitRegion
  simp only []
  rw [Op.bind_eq_after (readReferences_run table.strategy_eq hpage), Run.after_nil]
  by_cases hentry : references.entry (region / regionsPerPage) = 0
  · have hroom : references.entry (region / regionsPerPage) + 1 < entryLimit := by
      rw [hentry]
      decide
    rw [if_pos hentry]
    simp only [if_pos hroom]
    -- The store may stop the commit of the page, but neither way does it change the table.
    have hrecord := acquirePage_keeps aside_record (region / regionsPerPage) region progress mapper
    match hrun : acquirePage (region / regionsPerPage) region progress mapper with
    | ⟨.ok next, middle, trace⟩ =>
      rw [hrun] at hrecord
      have table' := table.of_record_eq hrecord
      have hbits : middle.committed = mapper.committed := congrArg Prod.snd hrecord
      obtain ⟨zeroFilled, rfl, serves, posts⟩ := of_acquirePage_ok hrun
      rw [Op.bind_eq_after hrun, setRegion_run table'.strategy_eq hpage (hbits ▸ hregion),
        Run.after_mk, List.append_nil]
      left
      refine ⟨_, _, _, _, _, rfl, table'.add (hbits ▸ hregion) (hbits ▸ hclear) rfl rfl,
        congrArg (Bitmap.fill · region (region + 1)) hbits, .fresh zeroFilled (hcounted ▸ hentry),
        ?_, ?_⟩
      · exact ⟨serves.transcript, serves.calls_eq, serves.notifications_eq⟩
      · rw [← List.append_nil trace]
        exact posts.trans (posts_withRegion middle true regionsPerPage references region _)
    | ⟨.error stop, middle, trace⟩ =>
      rw [hrun] at hrecord
      exact Or.inr ⟨stop, middle, trace, Op.bind_run_error hrun, table.of_record_eq hrecord⟩
  rw [if_neg hentry]
  by_cases hroom : references.entry (region / regionsPerPage) + 1 < entryLimit
  · simp only [if_pos hroom]
    left
    have hserves : Serves mapper (mapper.withRegion true regionsPerPage references region
        (references.entry (region / regionsPerPage) + 1)) [] [] := .silently rfl .nil
    have hposts := posts_withRegion mapper true regionsPerPage references region
      (references.entry (region / regionsPerPage) + 1)
    split
    · next hhead =>
      rw [pure_bind, setRegion_run table.strategy_eq hpage hregion]
      exact ⟨_, _, _, [], _, rfl, hadd, rfl, .again (hcounted ▸ hentry) hhead, hserves, hposts⟩
    · next hhead =>
      rw [pure_bind, setRegion_run table.strategy_eq hpage hregion]
      exact ⟨_, _, _, [], _, rfl, hadd, rfl, .shared (hcounted ▸ hentry) hhead, hserves, hposts⟩
  · simp only [if_neg hroom, Op.fail_bind]
    right
    refine ⟨.fault .addOverflow, mapper, [], ?_, table⟩
    split <;> rfl

end SharedTable

/-! ## Committing one region after the other -/

/-- What a batch that has come to the region `stop` makes of the answers to its commits: it takes
all bytes to be zero just if the page of every region is fresh and was answered so. -/
structure Progress.Vouches (share start stop : Nat) (zeroes : Nat → Bool) (progress : Progress) :
    Prop where
  fresh_mem : ∀ page ∈ progress.fresh,
    ∃ region, start ≤ region ∧ region < stop ∧ region / share = page
  zeroFilled_iff : progress.zeroFilled = true ↔ ∀ region, start ≤ region → region < stop →
    region / share ∈ progress.fresh ∧ zeroes (region / share) = true

/-- The answers to the commits of fresh pages, which are asked for in ascending order. -/
def Progress.answers (progress : Progress) (zeroes : Nat → Bool) : List Answer :=
  progress.fresh.reverse.map fun page => ⟨⟨.commit, page, 1⟩, zeroes page⟩

namespace Progress.Vouches

variable {share start stop residents : Nat} {zeroes : Nat → Bool} {progress later : Progress}
  {answers : List Answer}

theorem start_start (share start : Nat) (zeroes : Nat → Bool) :
    Progress.start.Vouches share start start zeroes where
  fresh_mem _ hpage := absurd hpage List.not_mem_nil
  zeroFilled_iff := ⟨fun _ region hfirst hlast => absurd hfirst (by omega), fun _ => rfl⟩

/-- No page that is fresh lies behind the region to which the batch has come, so if the page of that
is fresh it is the latest. -/
theorem latest_eq (vouches : progress.Vouches share start stop zeroes)
    (descending : progress.fresh.Pairwise (· > ·)) (h : stop / share ∈ progress.fresh) :
    progress.fresh.head? = some (stop / share) := by
  cases hfresh : progress.fresh with
  | nil =>
    rw [hfresh] at h
    exact absurd h List.not_mem_nil
  | cons last rest =>
    rw [hfresh] at h descending
    obtain ⟨region, -, hregion, hlast⟩ :=
      vouches.fresh_mem last (hfresh ▸ List.mem_cons_self)
    have hle : last ≤ stop / share := hlast ▸ Nat.div_le_div_right (Nat.le_of_lt hregion)
    rcases List.mem_cons.mp h with hsame | hearlier
    · rw [hsame, List.head?_cons]
    · exact absurd (List.rel_of_pairwise_cons descending hearlier) (Nat.not_lt.mpr hle)

theorem next (vouches : progress.Vouches share start stop zeroes) (hstop : start ≤ stop)
    (descending : progress.fresh.Pairwise (· > ·))
    (hnew : residents = 0 → ∀ region, start ≤ region → region < stop →
      region / share ≠ stop / share)
    (takes : progress.Takes (stop / share) residents answers later) :
    ∃ zeroes', later.Vouches share start (stop + 1) zeroes' ∧
      later.answers zeroes' = progress.answers zeroes ++ answers := by
  have hmem : ∀ page ∈ progress.fresh,
      ∃ region, start ≤ region ∧ region < stop + 1 ∧ region / share = page := by
    intro page hpage
    obtain ⟨region, hfirst, hlast, hregion⟩ := vouches.fresh_mem page hpage
    exact ⟨region, hfirst, by omega, hregion⟩
  have hsplit : ∀ P : Nat → Prop, (∀ region, start ≤ region → region < stop + 1 → P region) ↔
      (∀ region, start ≤ region → region < stop → P region) ∧ P stop := by
    intro P
    refine ⟨fun h => ⟨fun region hge hlt => h region hge (by omega), h stop hstop (by omega)⟩, ?_⟩
    intro h region hge hlt
    rcases Nat.lt_succ_iff_lt_or_eq.mp hlt with hbefore | rfl
    · exact h.1 region hge hbefore
    · exact h.2
  cases takes with
  | fresh zeroFilled vacant =>
    have hnew := hnew vacant
    refine ⟨Function.update zeroes (stop / share) zeroFilled, ⟨?_, ?_⟩, ?_⟩
    · intro page hpage
      rcases List.mem_cons.mp hpage with rfl | hold
      · exact ⟨stop, hstop, Nat.lt_succ_self stop, rfl⟩
      · exact hmem page hold
    -- No earlier region lies on the new page, so all is as it was for these.
    · have hearlier : ∀ region, start ≤ region → region < stop →
          (region / share ∈ stop / share :: progress.fresh ∧
            Function.update zeroes (stop / share) zeroFilled (region / share) = true ↔
          region / share ∈ progress.fresh ∧ zeroes (region / share) = true) := by
        intro region hfirst hlast
        have hne := hnew region hfirst hlast
        rw [Function.update_of_ne hne, List.mem_cons, or_iff_right hne]
      rw [hsplit, Bool.and_eq_true, vouches.zeroFilled_iff, Function.update_self]
      exact and_congr (forall_congr' fun region => forall_congr' fun hfirst =>
        forall_congr' fun hlast => (hearlier region hfirst hlast).symm)
        (and_iff_right List.mem_cons_self).symm
    · have hsame : ∀ page ∈ progress.fresh.reverse,
          (⟨⟨.commit, page, 1⟩, Function.update zeroes (stop / share) zeroFilled page⟩ : Answer) =
            ⟨⟨.commit, page, 1⟩, zeroes page⟩ := by
        intro page hpage
        obtain ⟨region, hfirst, hlast, rfl⟩ :=
          vouches.fresh_mem page (List.mem_reverse.mp hpage)
        rw [Function.update_of_ne (hnew region hfirst hlast)]
      rw [Progress.answers, Progress.answers, List.reverse_cons, List.map_append,
        List.map_congr_left hsame, List.map_singleton, Function.update_self]
  | again needed latest =>
    have hlatest := List.mem_of_mem_head? latest
    refine ⟨zeroes, ⟨hmem, ?_⟩, (List.append_nil _).symm⟩
    rw [hsplit, vouches.zeroFilled_iff]
    refine ⟨fun h => ⟨h, hlatest, ?_⟩, And.left⟩
    -- The page was fresh when an earlier region came to it.
    obtain ⟨region, hfirst, hlast, hregion⟩ := vouches.fresh_mem _ hlatest
    exact hregion ▸ (h region hfirst hlast).2
  | shared needed earlier =>
    refine ⟨zeroes, ⟨hmem, ?_⟩, (List.append_nil _).symm⟩
    rw [hsplit]
    exact ⟨fun h => absurd h Bool.false_ne_true,
      fun h => absurd (vouches.latest_eq descending h.2.1) earlier⟩

end Progress.Vouches

/-- A batch of commits has come to the region `stop`: the regions before it are committed, and the
store was asked for the pages that are needed for them and were not before. -/
structure Underway (regionsPerPage start stop : Nat) (mapper : Mapper σ) (progress : Progress)
    (after : Mapper σ) (trace : List Effect) (zeroes : Nat → Bool) : Prop where
  table : ∃ references, SharedTable regionsPerPage references after
  size_eq : after.committed.size = mapper.committed.size
  bit_eq : ∀ region, after.committed.bit region =
    if start ≤ region ∧ region < stop then true else mapper.committed.bit region
  fills : progress.Fills regionsPerPage mapper.committed after.committed
  vouches : progress.Vouches regionsPerPage start stop zeroes
  serves : Serves mapper after (progress.answers zeroes) trace
  posts : Posts mapper after progress.fresh.length 0 trace

namespace Underway

variable {progress next : Progress} {later : Mapper σ} {references' : GranuleTable}
  {answers : List Answer} {trace' : List Effect} {zeroes : Nat → Bool}

omit [QuietStore σ] in
theorem start_start (table : SharedTable regionsPerPage references mapper) (start : Nat)
    (zeroes : Nat → Bool) :
    Underway regionsPerPage start start mapper .start mapper [] zeroes where
  table := ⟨references, table⟩
  size_eq := rfl
  bit_eq region := by
    have hout : ¬ (start ≤ region ∧ region < start) := by omega
    rw [if_neg hout]
  fills := .start_start _ _
  vouches := .start_start _ _ _
  serves := .silently rfl .nil
  posts := .refl mapper

omit [QuietStore σ] in
/-- The region to which a batch has come has the bit that it had at first. -/
theorem bit_next (underway : Underway regionsPerPage start region mapper progress after trace
    zeroes) : after.committed.bit region = mapper.committed.bit region := by
  have hout : ¬ (start ≤ region ∧ region < region) := by omega
  rw [underway.bit_eq, if_neg hout]

omit [QuietStore σ] in
theorem advance (underway : Underway regionsPerPage start region mapper progress after trace zeroes)
    (hfirst : start ≤ region) (hregion : region < after.committed.size)
    (hclear : after.committed.bit region = false)
    (table : SharedTable regionsPerPage references' later)
    (hbits : later.committed = after.committed.fill region (region + 1))
    (takes : progress.Takes (region / regionsPerPage)
      (after.committed.residents regionsPerPage (region / regionsPerPage)) answers next)
    (serves : Serves after later answers trace') (posts : Posts after later answers.length 0 trace') :
    ∃ zeroes', Underway regionsPerPage start (region + 1) mapper next later (trace ++ trace')
      zeroes' := by
  -- A page without a committed region is the page of no region of the batch so far.
  have hnew : after.committed.residents regionsPerPage (region / regionsPerPage) = 0 →
      ∀ other, start ≤ other → other < region →
        other / regionsPerPage ≠ region / regionsPerPage := by
    intro hnone other hge hlt hsame
    obtain ⟨_, table⟩ := underway.table
    have hpos : 0 < after.committed.residents regionsPerPage (region / regionsPerPage) := by
      rw [Bitmap.residents_pos_iff table.tidy]
      exact ⟨other, by rw [underway.bit_eq, if_pos ⟨hge, hlt⟩], hsame⟩
    omega
  have hfresh : next.fresh = after.committed.vacant regionsPerPage region ++ progress.fresh ∧
      answers.length = (after.committed.vacant regionsPerPage region).length := by
    unfold Bitmap.vacant
    cases takes with
    | fresh zeroFilled vacant => rw [if_pos vacant]; exact ⟨rfl, rfl⟩
    | again needed | shared needed => rw [if_neg needed]; exact ⟨rfl, rfl⟩
  have hle : ∀ page ∈ progress.fresh, page ≤ region / regionsPerPage := by
    intro page hpage
    obtain ⟨other, -, hother, rfl⟩ := underway.vouches.fresh_mem page hpage
    exact Nat.div_le_div_right (Nat.le_of_lt hother)
  obtain ⟨zeroes', vouches, hanswers⟩ :=
    underway.vouches.next hfirst underway.fills.descending hnew takes
  refine ⟨zeroes', ⟨_, table⟩, ?_, ?_, ?_, vouches, ?_, ?_⟩
  · rw [hbits, Bitmap.size_fill, underway.size_eq]
  · intro other
    rw [hbits, Bitmap.fill, Bitmap.bit_bring hregion, underway.bit_eq]
    by_cases hsame : region ≤ other ∧ other < region + 1
    · have hrange : start ≤ other ∧ other < region + 1 := by omega
      rw [if_pos hsame, if_pos hrange]
    · have hrange : (start ≤ other ∧ other < region + 1) ↔ (start ≤ other ∧ other < region) := by
        omega
      rw [if_neg hsame, if_congr hrange rfl rfl]
  · rw [hbits]
    exact underway.fills.next hregion hclear hle hfresh.1
  · rw [hanswers]
    exact underway.serves.trans serves
  · rw [hfresh.1, List.length_append, Nat.add_comm, ← hfresh.2]
    exact underway.posts.trans posts

end Underway

namespace SharedTable

/-- The loop over the regions of a batch comes to its end, or it stops with a table that is still in
step with the bits. -/
theorem commitLoop_cases (table : SharedTable regionsPerPage references mapper)
    (ready : mapper.Ready false start count) :
    (∃ progress after trace,
      Op.fold (commitRegion regionsPerPage) Progress.start (List.range' start count) mapper =
        ⟨.ok progress, after, trace⟩ ∧
      ∃ zeroes, Underway regionsPerPage start (start + count) mapper progress after trace zeroes) ∨
    (∃ stop after trace region,
      Op.fold (commitRegion regionsPerPage) Progress.start (List.range' start count) mapper =
        ⟨.error stop, after, trace⟩ ∧ start ≤ region ∧ region < start + count ∧
      ∃ references', SharedTable regionsPerPage references' after) := by
  refine Op.fold_range
    (fun region (progress : Progress) after trace =>
      ∃ zeroes, Underway regionsPerPage start region mapper progress after trace zeroes)
    (fun _ _ after _ => ∃ references', SharedTable regionsPerPage references' after)
    ⟨fun _ => false, .start_start table start _⟩ ?_
  intro region progress after trace hfirst hlast hinv
  obtain ⟨zeroes, underway⟩ := hinv
  obtain ⟨references', table'⟩ := underway.table
  have hregion : region < after.committed.size := by
    rw [underway.size_eq]
    exact Nat.lt_of_lt_of_le hlast ready.le_size
  have hclear := underway.bit_next.trans (ready.bit_eq region hfirst hlast)
  rcases table'.commitRegion_cases hregion hclear progress with
    ⟨next, later, _, answers, trace', hrun, table'', hbits, takes, serves, posts⟩ |
    ⟨stop, later, trace', hrun, table''⟩
  · exact Or.inl ⟨next, later, trace', hrun,
      underway.advance hfirst hregion hclear table'' hbits takes serves posts⟩
  · exact Or.inr ⟨stop, later, trace', hrun, _, table''⟩

/-! ## Uncommitting one region after the other -/

omit [QuietStore σ] in
/-- A region is counted out and its bit is cleared, or neither of the two is done. -/
theorem uncommitRegion_cases (table : SharedTable regionsPerPage references mapper)
    (hregion : region < mapper.committed.size) (hset : mapper.committed.bit region = true)
    (released : Nat) :
    (∃ total after references' trace,
      uncommitRegion regionsPerPage released region mapper = ⟨.ok total, after, trace⟩ ∧
      SharedTable regionsPerPage references' after ∧
      after.committed = mapper.committed.wipe region (region + 1)) ∨
    (∃ stop after trace,
      uncommitRegion regionsPerPage released region mapper = ⟨.error stop, after, trace⟩ ∧
      SharedTable regionsPerPage references after) := by
  have hpage := table.page_lt hregion
  have hreferred : (references.entry (region / regionsPerPage) != 0) = true :=
    bne_iff_ne.mpr (Nat.ne_of_gt (table.entry_pos hset))
  unfold uncommitRegion
  simp only []
  rw [Op.bind_eq_after (readReferences_run table.strategy_eq hpage), Run.after_nil, hreferred,
    Op.require_true, pure_bind]
  by_cases hlast : references.entry (region / regionsPerPage) = 1
  · rw [if_pos hlast]
    have hrecord := releasePage_keeps aside_record (region / regionsPerPage) region mapper
    match hrun : releasePage (region / regionsPerPage) region mapper with
    | ⟨.ok (), middle, trace⟩ =>
      rw [hrun] at hrecord
      have table' := table.of_record_eq hrecord
      have hbits : middle.committed = mapper.committed := congrArg Prod.snd hrecord
      rw [Op.bind_eq_after hrun, clearRegion_run table'.strategy_eq hpage (hbits ▸ hregion),
        Run.after_mk]
      exact Or.inl ⟨_, _, _, _, rfl, table'.remove (hbits ▸ hregion) (hbits ▸ hset) rfl rfl,
        congrArg (Bitmap.wipe · region (region + 1)) hbits⟩
    | ⟨.error stop, middle, trace⟩ =>
      rw [hrun] at hrecord
      exact Or.inr ⟨stop, middle, trace, Op.bind_run_error hrun, table.of_record_eq hrecord⟩
  · rw [if_neg hlast, clearRegion_run table.strategy_eq hpage hregion]
    exact Or.inl ⟨_, _, _, _, rfl, table.remove hregion hset rfl rfl, rfl⟩

omit [QuietStore σ] in
/-- However a batch of uncommits ends, the table is in step with the bits. -/
theorem uncommitShared_table (table : SharedTable regionsPerPage references mapper)
    (ready : mapper.Ready true start count) : ∃ references', SharedTable regionsPerPage references'
      (uncommitShared regionsPerPage start count mapper).state := by
  -- The bits behind the region that comes next are as they were, so all of them can be cleared.
  have hloop : (∃ (total : Nat) (after : Mapper σ) (trace : List Effect),
      uncommitShared regionsPerPage start count mapper = ⟨.ok total, after, trace⟩ ∧
      (∃ references', SharedTable regionsPerPage references' after) ∧
      after.committed.size = mapper.committed.size ∧ ∀ other, start + count ≤ other →
        after.committed.bit other = mapper.committed.bit other) ∨
    (∃ (stop : Stop Refusal) (after : Mapper σ) (trace : List Effect) (region : Nat),
      uncommitShared regionsPerPage start count mapper = ⟨.error stop, after, trace⟩ ∧
      start ≤ region ∧ region < start + count ∧
      ∃ references', SharedTable regionsPerPage references' after) := by
    refine Op.fold_range
      (fun region _ after _ => (∃ references', SharedTable regionsPerPage references' after) ∧
        after.committed.size = mapper.committed.size ∧ ∀ other, region ≤ other →
          after.committed.bit other = mapper.committed.bit other)
      (fun _ _ after _ => ∃ references', SharedTable regionsPerPage references' after)
      ⟨⟨_, table⟩, rfl, fun _ _ => rfl⟩ ?_
    intro region released after trace hfirst hlast hinv
    obtain ⟨⟨references', table'⟩, hsize, hbit⟩ := hinv
    have hregion : region < after.committed.size := by
      rw [hsize]
      exact Nat.lt_of_lt_of_le hlast ready.le_size
    have hset := (hbit region (Nat.le_refl _)).trans (ready.bit_eq region hfirst hlast)
    rcases table'.uncommitRegion_cases hregion hset released with
      ⟨total, later, _, trace', hrun, table'', hbits⟩ | ⟨stop, later, trace', hrun, table''⟩
    · refine Or.inl ⟨total, later, trace', hrun, ⟨_, table''⟩, ?_, ?_⟩
      · rw [hbits, Bitmap.size_wipe, hsize]
      · intro other hother
        have hout : ¬ (region ≤ other ∧ other < region + 1) := by omega
        rw [hbits, Bitmap.wipe, Bitmap.bit_bring hregion, if_neg hout]
        exact hbit other (by omega)
    · exact Or.inr ⟨stop, later, trace', hrun, _, table''⟩
  rcases hloop with ⟨_, _, _, hrun, htable, -⟩ | ⟨_, _, _, _, hrun, -, -, htable⟩
  all_goals
    rw [hrun]
    exact htable

/-! ## At all times -/

/-- However a batch of commits ends, the table is in step with the bits. -/
theorem commitShared_table (table : SharedTable regionsPerPage references mapper)
    (ready : mapper.Ready false start count) (pretoucher : Option Pretoucher) :
    ∃ references', SharedTable regionsPerPage references'
      (commitShared regionsPerPage start count pretoucher mapper).state := by
  -- What comes behind the loop changes neither the table nor the bits.
  have hrecord : (commitShared regionsPerPage start count pretoucher mapper).state.record =
      (Op.fold (commitRegion regionsPerPage) Progress.start (List.range' start count)
        mapper).state.record := by
    refine Op.bind_seen_eq (fun progress => ?_) mapper
    exact Op.bind_keeps (pretouchFresh_keeps aside_record _ _) fun _ =>
      Op.bind_keeps (fun _ => rfl) fun _ _ => rfl
  have hloop : ∃ references', SharedTable regionsPerPage references'
      (Op.fold (commitRegion regionsPerPage) Progress.start (List.range' start count)
        mapper).state := by
    rcases table.commitLoop_cases ready with
      ⟨_, _, _, hrun, _, underway⟩ | ⟨_, _, _, _, hrun, -, -, htable⟩
    · rw [hrun]
      exact underway.table
    · rw [hrun]
      exact htable
  obtain ⟨references', table'⟩ := hloop
  exact ⟨references', table'.of_record_eq hrecord⟩

theorem commitRegions_table (table : SharedTable regionsPerPage references mapper)
    (start count : Nat) (pretoucher : Option Pretoucher) :
    ∃ references', SharedTable regionsPerPage references'
      (commitRegions start count pretoucher mapper).state := by
  by_cases ready : mapper.Ready false start count
  · rw [ready.commitRegions_eq]
    split
    · have hkeeps : (do
          Mapper.count fun activity => activity.commit 0 0
          notify start 0 true : Op Refusal (Mapper σ) Unit).Keeps record :=
        Op.bind_keeps (count_keeps aside_record _) fun _ => notify_keeps _ _ _
      exact ⟨references, table.of_record_eq (hkeeps mapper)⟩
    · obtain ⟨references', table'⟩ := table.commitShared_table ready pretoucher
      rw [← backRegions_small table.strategy_eq] at table'
      refine ⟨references', table'.of_record_eq ?_⟩
      refine (Op.bind_seen_eq (fun backing => ?_) mapper).trans
        (Op.recover_seen_eq (reportFailure_keeps aside_record _ _) mapper)
      exact Op.bind_keeps (reportCommit_keeps aside_record _ _ _) fun _ => notify_keeps _ _ _
  · obtain ⟨_, -, hrun⟩ := commitRegions_fault ready pretoucher
    rw [hrun]
    exact ⟨references, table⟩

omit [QuietStore σ] in
theorem uncommitRegions_table (table : SharedTable regionsPerPage references mapper)
    (start count : Nat) : ∃ references', SharedTable regionsPerPage references'
      (uncommitRegions start count mapper).state := by
  by_cases ready : mapper.Ready true start count
  · obtain ⟨references', table'⟩ := table.uncommitShared_table ready
    rw [← unbackRegions_small table.strategy_eq] at table'
    rw [ready.uncommitRegions_eq]
    refine ⟨references', table'.of_record_eq (Op.bind_seen_eq (fun pages => ?_) mapper)⟩
    exact Op.bind_keeps (count_keeps aside_record _) fun _ =>
      Op.bind_keeps (fun _ => rfl) fun _ _ => rfl
  · obtain ⟨_, -, hrun⟩ := uncommitRegions_fault ready
    rw [hrun]
    exact ⟨references, table⟩

end SharedTable

theorem Follows.sharedTable {between : σ → σ → Prop} (follows : Follows between mapper after)
    (table : SharedTable regionsPerPage references mapper) :
    ∃ references', SharedTable regionsPerPage references' after := by
  cases follows with
  | call call =>
    cases call with
    | commit start count pretoucher => exact table.commitRegions_table start count pretoucher
    | uncommit start count => exact table.uncommitRegions_table start count
  | listener | nodes | store => exact ⟨references, table.congr rfl rfl⟩

/-- Whatever the store answers and however it changes, the references are right at all times. -/
theorem Reachable.sharedTable {between : σ → σ → Prop} (h : Reachable between mapper after)
    (table : SharedTable regionsPerPage references mapper) :
    ∃ references', SharedTable regionsPerPage references' after := by
  induction h with
  | refl => exact ⟨references, table⟩
  | tail _ follows ih =>
    obtain ⟨_, table'⟩ := ih
    exact follows.sharedTable table'

end RegionBacking.Mapper
