import RegionBacking.Proofs.Mapper.Balance
import RegionBacking.Proofs.Mapper.Keeping

/-!
# What a listener hears

A listener that was bound stays with its mapper, for no call touches it. It hears of a commit last
of all: `commitUnheard` is a commit up to that point, so the mapper that it leaves is the one of the
moment at which the listener hears. By then the regions are committed, and so are the pages behind
them. A call that stops does not come to that point, and an uncommit has none. So what a listener
hears over any number of calls is, one for one and in order, the commits that came to their end.
-/

namespace RegionBacking.Mapper

/-! ## Up to the moment at which the listener hears -/

section listener

variable {σ : Type} [PageStore σ]

/-- A commit up to the point at which the listener hears of it. The value is what it hears of
zeroes. -/
def commitUnheard (start regions : Nat) (pretoucher : Option Pretoucher) :
    Op Refusal (Mapper σ) Bool := do
  let stop ← checkRegions start regions
  let mapper ← Op.get
  let clear ← Op.checked (mapper.committed.isRangeClear start stop)
  Op.require clear
    (.regionCommitted ((mapper.committed.findSet? start stop).getD start) start stop)
  if regions = 0 then
    count fun activity => activity.commit 0 0
    pure true
  else
    let backing ← (backRegions start regions pretoucher).recover (reportFailure start regions)
    reportCommit start regions backing
    pure backing.zeroFilled

/-- What comes after that point of a commit is the notification. -/
theorem commitRegions_eq_bind (start regions : Nat) (pretoucher : Option Pretoucher) :
    (commitRegions start regions pretoucher : Op Refusal (Mapper σ) Unit) =
      commitUnheard start regions pretoucher >>= notify start regions := by
  unfold commitRegions commitUnheard
  simp only [bind_assoc]
  by_cases hnone : regions = 0
  · subst hnone
    simp only [if_true, bind_assoc, pure_bind]
  · simp only [if_neg hnone, bind_assoc, pure_bind]

/-- Of no regions the listener hears that they read as zero. -/
theorem commitUnheard_zero {start : Nat} {pretoucher : Option Pretoucher}
    {mapper moment : Mapper σ} {zeroFilled : Bool} {trace : List Effect}
    (h : commitUnheard start 0 pretoucher mapper = ⟨.ok zeroFilled, moment, trace⟩) :
    zeroFilled = true := by
  unfold commitUnheard at h
  obtain ⟨_, _, _, _, _, h, -⟩ := Op.of_bind_run_ok h
  obtain ⟨_, _, _, _, _, h, -⟩ := Op.of_bind_run_ok h
  obtain ⟨_, _, _, _, _, h, -⟩ := Op.of_bind_run_ok h
  obtain ⟨_, _, _, _, _, h, -⟩ := Op.of_bind_run_ok h
  rw [if_pos rfl] at h
  cases h
  rfl

theorem commitUnheard_keeps (start regions : Nat) (pretoucher : Option Pretoucher) :
    (commitUnheard start regions pretoucher : Op Refusal (Mapper σ) Bool).Keeps listener := by
  have aside : Aside (listener : Mapper σ → Listener) := steady_listener.toAside
  refine Op.bind_keeps (checkRegions_keeps _ _) fun _ => Op.bind_keeps (fun _ => rfl) fun _ =>
    Op.bind_keeps (Op.checked_keeps _) fun _ => Op.bind_keeps (Op.require_keeps _ _) fun _ => ?_
  split
  · exact Op.bind_keeps (count_keeps aside _) fun _ _ => rfl
  · exact Op.bind_keeps (Op.recover_keeps (backRegions_keeps steady_listener _ _ _)
      (reportFailure_keeps aside _ _)) fun _ =>
      Op.bind_keeps (reportCommit_keeps aside _ _ _) fun _ _ => rfl

end listener

variable {first mapper : Mapper PageSpace} {log : List Made}

/-- The listener hears of a call: it is a commit that came to its end, and at the moment at which
the listener hears of it, last of all, its regions are committed and all pages behind them are. -/
structure Made.Heard (made : Made) (notification : Notification) (pretoucher : Option Pretoucher)
    (moment : Mapper PageSpace) (earlier : List Effect) : Prop where
  call_eq : made.call = .commit notification.start notification.count pretoucher
  unheard_eq : commitUnheard notification.start notification.count pretoucher made.mapper =
    ⟨.ok notification.zeroFilled, moment, earlier⟩
  run_eq : made.run = ⟨.ok (), moment, earlier ++ [.notification notification]⟩
  notifications_eq : Effect.notifications earlier = []
  committed : ∀ region, notification.start ≤ region →
    region < notification.start + notification.count → moment.isCommitted region = true
  backed : ∀ region, notification.start ≤ region →
    region < notification.start + notification.count → ∀ page, moment.strategy.Hosts page region →
      moment.store.isCommitted page = true
  /-- No regions are said to read as zero. -/
  zeroFilled_of_none : notification.count = 0 → notification.zeroFilled = true

/-- The listener hears of a call by a notification. -/
def Made.Tells (made : Made) (notification : Notification) : Prop :=
  ∃ pretoucher moment earlier, made.Heard notification pretoucher moment earlier

/-- A commit that comes to its end tells the listener, who is there, at its very end. -/
theorem unheard_of_commit {start count : Nat} {pretoucher : Option Pretoucher} {zeroFilled : Bool}
    {after : Mapper PageSpace} {trace : List Effect} (hlive : mapper.listener = .live)
    (hrun : commitRegions start count pretoucher mapper =
      ⟨.ok (), after, trace ++ after.told start count zeroFilled⟩) :
    commitUnheard start count pretoucher mapper = ⟨.ok zeroFilled, after, trace⟩ ∧
      after.told start count zeroFilled = [.notification ⟨start, count, zeroFilled⟩] := by
  have hkept := commitUnheard_keeps start count pretoucher mapper
  rw [hlive] at hkept
  rw [commitRegions_eq_bind] at hrun
  match hunheard : commitUnheard start count pretoucher mapper with
  | ⟨.ok flag, moment, earlier⟩ =>
    rw [hunheard] at hkept
    rw [Op.bind_eq_after hunheard, notify_run, Run.after_mk, Run.mk.injEq] at hrun
    obtain ⟨-, rfl, htrace⟩ := hrun
    have htold : ∀ flag : Bool, moment.told start count flag =
        [.notification ⟨start, count, flag⟩] := fun flag => if_pos hkept
    rw [htold, htold] at htrace
    obtain ⟨rfl, hsame⟩ := List.append_inj' htrace rfl
    cases hsame
    exact ⟨rfl, htold _⟩
  | ⟨.error stop, moment, earlier⟩ =>
    rw [Op.bind_run_error hunheard] at hrun
    cases hrun

/-- By the moment at which the listener hears of a commit, the commit is done. -/
theorem Made.heard_of_commit {start count : Nat} {pretoucher : Option Pretoucher}
    {zeroFilled : Bool} {after : Mapper PageSpace} {trace : List Effect} {answers : List Answer}
    (hlive : mapper.listener = .live)
    (hrun : commitRegions start count pretoucher mapper =
      ⟨.ok (), after, trace ++ after.told start count zeroFilled⟩)
    (hdone : BroughtTo true start (start + count) mapper after answers trace) :
    (Made.mk mapper (.commit start count pretoucher)).Heard ⟨start, count, zeroFilled⟩ pretoucher
      after trace := by
  obtain ⟨hunheard, htold⟩ := unheard_of_commit hlive hrun
  have hcommitted : ∀ region, start ≤ region → region < start + count →
      after.isCommitted region = true := by
    intro region hfirst hlast
    rw [hdone.sound.isCommitted_eq, hdone.bit_eq, if_pos ⟨hfirst, hlast⟩]
  refine ⟨rfl, hunheard, htold ▸ hrun, hdone.reaches.notifications_eq, hcommitted, ?_, ?_⟩
  · intro region hfirst hlast page hhosts
    exact (hdone.sound.backed_iff page).mpr ⟨region, hcommitted region hfirst hlast, hhosts⟩
  · rintro rfl
    exact commitUnheard_zero hunheard

/-- What the listener hears is, one for one, the commits of a log that came to their end. -/
def Informs (log : List Made) : Prop :=
  List.Forall₂ Made.Tells (log.filter (Made.commits .done))
    (Effect.notifications (log.flatMap fun made => made.run.trace))

theorem Informs.append {later : List Made} (first : Informs log) (second : Informs later) :
    Informs (log ++ later) := by
  unfold Informs
  rw [List.filter_append, List.flatMap_append, Effect.notifications_append]
  exact List.rel_append first second

theorem Made.Heard.informs {made : Made} {notification : Notification}
    {pretoucher : Option Pretoucher} {moment : Mapper PageSpace} {earlier : List Effect}
    (heard : made.Heard notification pretoucher moment earlier) : Informs [made] := by
  have hdone : made.outcome = .done := by
    rw [Made.outcome, heard.run_eq]
    rfl
  have hcommits : made.commits .done = true := by
    rw [Made.commits, heard.call_eq, hdone]
    rfl
  have hheard : Effect.notifications made.run.trace = [notification] := by
    rw [heard.run_eq, Effect.notifications_append, heard.notifications_eq]
    rfl
  unfold Informs
  rw [List.filter_cons_of_pos hcommits, List.flatMap_singleton, hheard]
  exact .cons ⟨pretoucher, moment, earlier, heard⟩ .nil

/-- The listener may as well not hear of a call that is no commit, or does not come to its end. -/
theorem Made.informs_of_silent {made : Made} (hcommits : made.commits .done = false)
    (hsilent : Effect.notifications made.run.trace = []) : Informs [made] := by
  unfold Informs
  rw [List.filter_cons_of_neg (by rw [hcommits]; exact Bool.false_ne_true), List.flatMap_singleton,
    hsilent]
  exact .nil

theorem Made.commits_done_of_error {made : Made} {stop : Stop Refusal}
    (h : made.run.result = .error stop) : made.commits .done = false := by
  rw [Made.commits, decide_eq_false (Made.outcome_ne_done h), Bool.and_false]

/-- The listener hears of a commit that comes to its end, and of nothing else. -/
theorem Made.informs (inUse : mapper.InUse) (hlive : mapper.listener = .live) (call : Call)
    (inWords : call.InWords) : Informs [⟨mapper, call⟩] := by
  cases call with
  | commit start count pretoucher =>
    -- However the commit stops, nobody has heard of anything by then.
    have hstopped : ∀ {stop : Stop Refusal} {after : Mapper PageSpace} {trace : List Effect},
        commitRegions start count pretoucher mapper = ⟨.error stop, after, trace⟩ →
        Effect.notifications trace = [] → Informs [⟨mapper, .commit start count pretoucher⟩] := by
      intro stop after trace hrun hsilent
      have hrun : (Made.mk mapper (.commit start count pretoucher)).run = _ := hrun
      refine Made.informs_of_silent (Made.commits_done_of_error (congrArg Run.result hrun)) ?_
      rw [hrun]
      exact hsilent
    by_cases ready : mapper.Ready false start count
    · rcases commitRegions_run inUse.sound ready pretoucher fun _ _ => inUse.chunked inWords with
        ⟨zeroFilled, after, trace, answers, hrun, hdone, -⟩ |
        ⟨stop, after, trace, answers, region, hrun, hdone, -⟩
      · exact (Made.heard_of_commit hlive hrun hdone).informs
      · exact hstopped hrun hdone.reaches.notifications_eq
    · obtain ⟨fault, -, hrun⟩ := commitRegions_fault ready pretoucher
      exact hstopped hrun rfl
  | uncommit start count =>
    obtain ⟨answers, orderly⟩ := uncommit_orderly inUse.sound start count
    exact Made.informs_of_silent rfl (orderly.of_uncommit start count rfl).2.1

/-! ## Any number of calls -/

/-- What becomes of a mapper as long as its listener stays with it, with the calls that are made of
it meanwhile, the latest last. -/
inductive Attended (first : Mapper PageSpace) : List Made → Mapper PageSpace → Prop where
  | start : Attended first [] first
  | call {log : List Made} {mapper : Mapper PageSpace} (earlier : Attended first log mapper)
    (call : Call) (inWords : call.InWords) :
    Attended first (log ++ [⟨mapper, call⟩]) (Made.mk mapper call).after
  | idle {log : List Made} {mapper after : Mapper PageSpace} (earlier : Attended first log mapper)
    (idles : mapper.Idles after) (listener_eq : after.listener = mapper.listener) :
    Attended first log after

namespace Attended

theorem logged (attended : Attended first log mapper) : Logged first log mapper := by
  induction attended with
  | start => exact .start
  | call _ call inWords ih => exact ih.call call inWords
  | idle _ idles _ ih => exact ih.idle idles

theorem listener_eq (attended : Attended first log mapper) : mapper.listener = first.listener := by
  induction attended with
  | start => rfl
  | call _ call _ ih => exact (call.run_keeps steady_listener _).trans ih
  | idle _ _ listener_eq ih => exact listener_eq.trans ih

/-- Step by step the listener hears of the commits that come to their end. -/
theorem informs (attended : Attended first log mapper) (inUse : first.InUse)
    (hlive : first.listener = .live) : Informs log := by
  induction attended with
  | start => exact .nil
  | call earlier call inWords ih =>
    exact ih.append (Made.informs (earlier.logged.inUse inUse) (earlier.listener_eq.trans hlive)
      call inWords)
  | idle _ _ _ ih => exact ih

end Attended

theorem Informs.ranges_eq (informs : Informs log) :
    (Effect.notifications (log.flatMap fun made => made.run.trace)).map
        (fun notification => (notification.start, notification.count)) =
      (log.filter (Made.commits .done)).map fun made => (made.call.start, made.call.count) := by
  have hranges : List.Forall₂ (fun made notification => (made.call.start, made.call.count) =
      (notification.start, notification.count)) (log.filter (Made.commits .done))
      (Effect.notifications (log.flatMap fun made => made.run.trace)) := by
    refine informs.imp ?_
    rintro made notification ⟨pretoucher, moment, earlier, heard⟩
    rw [heard.call_eq]
    rfl
  rw [eq_comm, ← List.forall₂_eq_eq_eq, List.forall₂_map_left_iff, List.forall₂_map_right_iff]
  exact hranges

/-- Who is bound to a mapper for good hears of all commits that come to their end, in order, and of
nothing else. When it hears of one, the regions of that are committed and so are the pages behind
them. The moment of which that is said is the one at which a commit tells it: a commit is what is
done up to there, and then the notification. -/
theorem listener_told_throughout {settings : Settings} {usedSize : Nat} {memoryKind : MemoryKind}
    {pinned : Bool} {kind : StrategyKind} {machine : Machine} {before : Mapper PageSpace}
    (hfirst : (reserveWith settings usedSize memoryKind pinned kind machine).result = .ok first)
    (h : Reachable PageSpace.Meanwhile first before) (hunbound : before.listener = .unbound)
    (attended : Attended (bindListener before).state log mapper) :
    (bindListener before).result = .ok () ∧ mapper.listener = .live ∧
    (Effect.notifications (log.flatMap fun made => made.run.trace)).map
        (fun notification => (notification.start, notification.count)) =
      (log.filter (Made.commits .done)).map (fun made => (made.call.start, made.call.count)) ∧
    List.Forall₂ Made.Tells (log.filter (Made.commits .done))
      (Effect.notifications (log.flatMap fun made => made.run.trace)) ∧
    ∀ (start regions : Nat) (pretoucher : Option Pretoucher),
      (commitRegions start regions pretoucher : Op Refusal (Mapper PageSpace) Unit) =
        commitUnheard start regions pretoucher >>= notify start regions := by
  have hbind : bindListener before = ⟨.ok (), { before with listener := .live }, []⟩ := by
    rw [bindListener, Op.get_bind, hunbound]
    rfl
  rw [hbind] at attended ⊢
  have inUse := ((inUse_of_reserveWith hfirst).reachable h).follows (.listener .live)
  have informs := attended.informs inUse rfl
  exact ⟨rfl, attended.listener_eq, informs.ranges_eq, informs, commitRegions_eq_bind⟩

/-- Of four calls the listener hears of the first and the third one, which commits no regions; the
second one is a fault, for its region is committed already, and the last one uncommits. -/
theorem listener_told_of_four_regions :
    ∃ first log mapper,
      (reserveWith .fourRegions 8192 .heap false .small .willing).result = .ok first ∧
      Attended (bindListener first).state log mapper ∧
      log.map Made.call =
        [.commit 0 3 none, .commit 0 1 none, .commit 1 0 none, .uncommit 1 1] ∧
      (Effect.notifications (log.flatMap fun made => made.run.trace)).map
        (fun notification => (notification.start, notification.count)) = [(0, 3), (1, 0)] := by
  have attended : ∀ first : Mapper PageSpace, Attended first _ _ := fun first =>
    (((Attended.start.call (.commit 0 3 none) (by decide)).call (.commit 0 1 none) (by decide)).call
      (.commit 1 0 none) (by decide)).call (.uncommit 1 1) (by decide)
  refine ⟨_, _, _, rfl, attended _, rfl, ?_⟩
  rw [(@listener_told_throughout _ _ _ .fourRegions 8192 .heap false .small .willing _ rfl .refl rfl
    (attended _)).2.2.1]
  decide +kernel

end RegionBacking.Mapper
