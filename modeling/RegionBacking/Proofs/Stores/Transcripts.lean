import RegionBacking.Proofs.Stores.Scripted
import RegionBacking.Proofs.Stores.Space

/-!
# What any store is asked and answers

`StoreRun` speaks of lawful stores and legal calls. Much of what a mapper does depends on neither: a
store may answer a commit by whatever it likes, and the mapper goes by the answer. `Transcript` is a
run of any calls of any store, with what it answered. So that the calls in a trace are those of the
mapper, a store must show no calls itself (`QuietStore`); page spaces and scripted stores do not.
-/

namespace RegionBacking

/-! ## Stores that show no calls -/

/-- A store that shows requests and lines of the log only, whatever it is asked. -/
class QuietStore (σ : Type) [PageStore σ] : Prop where
  commit_quiet : ∀ (start count : Nat) (store : σ),
    Quiet (PageStore.commit start count store).trace
  uncommit_quiet : ∀ (start count : Nat) (store : σ),
    Quiet (PageStore.uncommit start count store).trace
  pretouch_quiet : ∀ (start count : Nat) (pretoucher : Pretoucher) (store : σ),
    Quiet (PageStore.pretouch start count pretoucher store).trace

/-- An operation that shows what a store may show. -/
def Op.IsQuiet {ε σ α : Type} (op : Op ε σ α) : Prop := ∀ state, Quiet (op state).trace

namespace Op

variable {ε ε' σ τ α β : Type}

theorem pure_quiet (value : α) : (pure value : Op ε σ α).IsQuiet := fun _ => .nil

theorem get_quiet : (get : Op ε σ σ).IsQuiet := fun _ => .nil

theorem modify_quiet (change : σ → σ) : (modify change : Op ε σ Unit).IsQuiet := fun _ => .nil

theorem refuse_quiet (error : ε) : (refuse error : Op ε σ α).IsQuiet := fun _ => .nil

theorem emit_quiet {effect : Effect} (h : effect.isOfStore = true) :
    (emit effect : Op ε σ Unit).IsQuiet := fun _ _ hmem => List.mem_singleton.mp hmem ▸ h

theorem checked_quiet (value : Except Fault α) : (checked value : Op ε σ α).IsQuiet := by
  intro state
  cases value <;> exact .nil

theorem require_quiet (condition : Bool) (fault : Fault) :
    (require condition fault : Op ε σ Unit).IsQuiet := by
  intro state
  cases condition <;> exact .nil

theorem bind_quiet {op : Op ε σ α} {next : α → Op ε σ β} (first : op.IsQuiet)
    (second : ∀ value, (next value).IsQuiet) : (op >>= next).IsQuiet := by
  intro state
  have hfirst := first state
  match hrun : op state with
  | ⟨.ok value, after, trace⟩ =>
    rw [hrun] at hfirst
    rw [bind_eq_after hrun]
    exact hfirst.append (second value after)
  | ⟨.error stop, after, trace⟩ =>
    rw [hrun] at hfirst
    rw [bind_run_error hrun]
    exact hfirst

theorem recover_quiet {op : Op ε σ α} {handle : ε → Op ε' σ α} (first : op.IsQuiet)
    (second : ∀ error, (handle error).IsQuiet) : (op.recover handle).IsQuiet := by
  intro state
  have hfirst := first state
  match hrun : op state with
  | ⟨.ok value, after, trace⟩ =>
    rw [hrun] at hfirst
    rw [recover_eq_ok hrun]
    exact hfirst
  | ⟨.error (.fault fault), after, trace⟩ =>
    rw [hrun] at hfirst
    rw [recover_eq_fault hrun]
    exact hfirst
  | ⟨.error (.error error), after, trace⟩ =>
    rw [hrun] at hfirst
    rw [recover_eq_after hrun]
    exact hfirst.append (second error after)

theorem within_quiet {part : τ → σ} {put : σ → τ → τ} {op : Op ε σ α} (h : op.IsQuiet) :
    (op.within part put).IsQuiet := by
  intro whole
  rw [within_run]
  exact h (part whole)

end Op

theorem Machine.perform_quiet (request : Request) (change : Memory → Memory) :
    (perform request change).IsQuiet := by
  refine Op.bind_quiet (Op.emit_quiet rfl) fun _ => Op.bind_quiet Op.get_quiet fun machine => ?_
  split
  · exact Op.refuse_quiet _
  · split
    · exact Op.refuse_quiet _
    · exact Op.modify_quiet _

namespace PageSpace

theorem back_quiet (start first last : Nat) : (back start first last).IsQuiet :=
  Op.bind_quiet Op.get_quiet fun _ => Op.recover_quiet
    (Op.within_quiet (Op.bind_quiet (Op.require_quiet _ _) fun _ => Machine.perform_quiet _ _))
    fun _ => Op.bind_quiet (Op.emit_quiet rfl) fun _ => Op.refuse_quiet _

theorem unback_quiet (start stop first last : Nat) : (unback start stop first last).IsQuiet :=
  Op.bind_quiet Op.get_quiet fun _ => Op.recover_quiet
    (Op.within_quiet (Op.bind_quiet (Op.require_quiet _ _) fun _ => Machine.perform_quiet _ _))
    fun _ => Op.refuse_quiet _

theorem checkPages_quiet (start count : Nat) : (checkPages start count).IsQuiet :=
  Op.bind_quiet Op.get_quiet fun _ => Op.bind_quiet (Op.checked_quiet _) fun _ =>
    Op.bind_quiet (Op.require_quiet _ _) fun _ => Op.pure_quiet _

theorem commit_quiet (start count : Nat) : (commit start count).IsQuiet := by
  unfold commit
  split
  · exact Op.pure_quiet _
  refine Op.bind_quiet (checkPages_quiet _ _) fun stop => Op.bind_quiet Op.get_quiet fun space =>
    Op.bind_quiet (Op.checked_quiet _) fun _ => Op.bind_quiet (Op.require_quiet _ _) fun _ =>
    Op.bind_quiet (Op.checked_quiet _) fun bounds => ?_
  have hbooked : ∀ zeroFilled, (do
      let committed ← Op.checked (space.committed.setRange start stop)
      Op.modify fun space => { space with
        committed, committedBytes := space.committedBytes + (bounds.2 - bounds.1) }
      Op.note (.pagesCommitted start stop bounds.1 zeroFilled)
      pure zeroFilled : Op Refusal PageSpace Bool).IsQuiet := fun _ =>
    Op.bind_quiet (Op.checked_quiet _) fun _ => Op.bind_quiet (Op.modify_quiet _) fun _ =>
      Op.bind_quiet (Op.emit_quiet rfl) fun _ => Op.pure_quiet _
  simp only []
  split
  · exact Op.bind_quiet (Op.checked_quiet _) fun _ => Op.bind_quiet (Op.checked_quiet _) fun _ =>
      Op.bind_quiet (Op.modify_quiet _) fun _ => hbooked _
  · exact Op.bind_quiet (back_quiet _ _ _) fun _ => hbooked _

theorem uncommit_quiet (start count : Nat) : (uncommit start count).IsQuiet := by
  unfold uncommit
  split
  · exact Op.pure_quiet _
  refine Op.bind_quiet (checkPages_quiet _ _) fun stop => Op.bind_quiet Op.get_quiet fun space =>
    Op.bind_quiet (Op.checked_quiet _) fun _ => Op.bind_quiet (Op.require_quiet _ _) fun _ =>
    Op.bind_quiet (Op.checked_quiet _) fun bounds => ?_
  have hbooked : ∀ _ : Unit, (do
      let committed ← Op.checked (space.committed.clearRange start stop)
      let committedBytes ← Op.checked (Word.sub space.committedBytes (bounds.2 - bounds.1))
      Op.modify fun space => { space with committed, committedBytes }
      Op.note (.pagesUncommitted start stop bounds.1) : Op Refusal PageSpace Unit).IsQuiet :=
    fun _ => Op.bind_quiet (Op.checked_quiet _) fun _ => Op.bind_quiet (Op.checked_quiet _)
      fun _ => Op.bind_quiet (Op.modify_quiet _) fun _ => Op.emit_quiet rfl
  simp only []
  split
  · exact Op.bind_quiet (Op.checked_quiet _) fun _ => Op.bind_quiet (Op.modify_quiet _) hbooked
  · exact Op.bind_quiet (unback_quiet _ _ _ _) hbooked

instance : QuietStore PageSpace where
  commit_quiet := commit_quiet
  uncommit_quiet := uncommit_quiet
  pretouch_quiet start count pretoucher space := by
    obtain ⟨_, _, _, hrun, quiet, -⟩ := pretouch_cases space start count pretoucher
    show Quiet (pretouch start count pretoucher space).trace
    rw [hrun]
    exact quiet

end PageSpace

namespace ScriptedStore

theorem commit_quiet (start count : Nat) : (commit start count).IsQuiet := by
  refine Op.bind_quiet Op.get_quiet fun store => ?_
  split
  · exact Op.refuse_quiet _
  · exact Op.bind_quiet (Op.bind_quiet Op.get_quiet fun _ => Op.bind_quiet (Op.modify_quiet _)
      fun _ => Op.require_quiet _ _) fun _ => Op.pure_quiet _

theorem uncommit_quiet (start count : Nat) : (uncommit start count).IsQuiet := by
  refine Op.bind_quiet Op.get_quiet fun store => ?_
  split
  · exact Op.refuse_quiet _
  · exact Op.modify_quiet _

instance : QuietStore ScriptedStore where
  commit_quiet := commit_quiet
  uncommit_quiet := uncommit_quiet
  pretouch_quiet start count pretoucher store := by
    obtain ⟨trace, hrecords, hrun⟩ := pretoucher.run_eq Refusal start count store.pageSize
      (fun _ => none) (fun store _ => store) store
    show Quiet (pretoucher.run start count store.pageSize (fun _ => none) (fun store _ => store)
      store).trace
    rw [hrun]
    exact .of_records hrecords

end ScriptedStore

/-! ## Questions and answers -/

/-- A run of commits and passes that takes a store from one state to another, all of which came to
their end, and what the store answered. -/
inductive Transcript {σ : Type} [PageStore σ] : σ → List Answer → σ → Prop where
  | done (store : σ) : Transcript store [] store
  | commit {store middle after : σ} {start count : Nat} {zeroFilled : Bool} {trace : List Effect}
      {later : List Answer}
      (hrun : PageStore.commit start count store = ⟨.ok zeroFilled, middle, trace⟩)
      (rest : Transcript middle later after) :
      Transcript store (⟨⟨.commit, start, count⟩, zeroFilled⟩ :: later) after
  | pretouch {store middle after : σ} {start count : Nat} {pretoucher : Pretoucher}
      {report : PretouchReport} {trace : List Effect} {later : List Answer}
      (hrun : PageStore.pretouch start count pretoucher store = ⟨.ok report, middle, trace⟩)
      (rest : Transcript middle later after) :
      Transcript store (⟨⟨.pretouch, start, count⟩, false⟩ :: later) after

theorem Transcript.trans {σ : Type} [PageStore σ] {a b c : σ} {earlier later : List Answer}
    (first : Transcript a earlier b) (second : Transcript b later c) :
    Transcript a (earlier ++ later) c := by
  induction first with
  | done => exact second
  | commit hrun _ ih => exact .commit hrun (ih second)
  | pretouch hrun _ ih => exact .pretouch hrun (ih second)

/-! ## Stores that count what they touch -/

/-- A store whose passes report as many pages as they were asked for. -/
class CountingStore (σ : Type) [PageStore σ] : Prop where
  pages_eq : ∀ {start count : Nat} {pretoucher : Pretoucher} {store after : σ}
    {report : PretouchReport} {trace : List Effect},
    PageStore.pretouch start count pretoucher store = ⟨.ok report, after, trace⟩ →
    report.pages = count

instance : CountingStore PageSpace where
  pages_eq hrun := PageSpace.pages_of_pretouch_ok (congrArg Run.result hrun)

instance : CountingStore ScriptedStore where
  pages_eq hrun := Pretoucher.pages_of_run_ok (congrArg Run.result hrun)

/-! ## Commits of page spaces -/

/-- Whether a call is for a page. -/
def Answer.Covers (answer : Answer) (page : Nat) : Prop :=
  answer.call.start ≤ page ∧ page < answer.call.start + answer.call.count

namespace PageSpace

variable {space after : PageSpace} {answers : List Answer}

/-- A commit that came to its end has committed just the pages that it was for, and none of these
was committed before. -/
theorem of_commit_ok {start count : Nat} {zeroFilled : Bool} {trace : List Effect}
    (sound : space.Sound) (h : commit start count space = ⟨.ok zeroFilled, after, trace⟩) :
    after.Sound ∧ ∀ page,
      (after.isCommitted page = true ↔
        space.isCommitted page = true ∨ start ≤ page ∧ page < start + count) ∧
      (start ≤ page → page < start + count → space.isCommitted page = false) := by
  rcases commit_cases sound start count with
    ⟨result, trace', hrun, -, hempty, -⟩ | ⟨hpos, legal, zeroFilled', trace', hrun, -⟩
  · cases hrun.symm.trans h
    obtain rfl := hempty zeroFilled rfl
    refine ⟨sound, fun page => ⟨⟨.inl, fun hor => ?_⟩, fun hge hlt => ?_⟩⟩
    · exact hor.resolve_right (by omega)
    · omega
  · cases hrun.symm.trans h
    refine ⟨(acquired_acquired sound hpos legal).sound, fun page => ⟨?_, fun hge hlt => ?_⟩⟩
    · rw [isCommitted_acquired sound hpos legal, Bool.or_eq_true, decide_eq_true_eq]
    · rw [sound.isCommitted_eq]
      exact legal.bit_eq page hge hlt

/-- Commits that came to their end have committed just the pages that they were for, and none of
these was committed before. -/
theorem of_transcript (transcript : Transcript space answers after) (sound : space.Sound)
    (hcommits : ∀ answer ∈ answers, answer.call.kind = .commit) :
    after.Sound ∧ ∀ page,
      (after.isCommitted page = true ↔
        space.isCommitted page = true ∨ ∃ answer ∈ answers, answer.Covers page) ∧
      ∀ answer ∈ answers, answer.Covers page → space.isCommitted page = false := by
  induction transcript with
  | done => exact ⟨sound, fun page => ⟨by simp, fun _ hanswer => absurd hanswer List.not_mem_nil⟩⟩
  | commit hrun _ ih =>
    obtain ⟨sound', hstep⟩ := of_commit_ok sound hrun
    obtain ⟨sound'', hlater⟩ := ih sound' fun answer hanswer =>
      hcommits answer (List.mem_cons_of_mem _ hanswer)
    refine ⟨sound'', fun page => ⟨?_, ?_⟩⟩
    · rw [(hlater page).1, (hstep page).1, or_assoc, List.exists_mem_cons_iff]
      rfl
    · intro answer hanswer hcovers
      rcases List.mem_cons.mp hanswer with rfl | hrest
      · exact (hstep page).2 hcovers.1 hcovers.2
      -- What was not committed in the middle was not committed at first.
      · have hmiddle := (hlater page).2 answer hrest hcovers
        rw [← Bool.not_eq_true, (hstep page).1, not_or] at hmiddle
        exact Bool.eq_false_of_not_eq_true hmiddle.1
  | pretouch => cases hcommits _ List.mem_cons_self

/-- A commit that came to its end said that its pages read as zero just if none of them was dirty. It
left other pages as clean or dirty as they were. -/
theorem zeroFilled_iff_of_commit {start count : Nat} {zeroFilled : Bool} {trace : List Effect}
    (sound : space.Sound) (h : commit start count space = ⟨.ok zeroFilled, after, trace⟩) :
    (zeroFilled = true ↔
      ∀ page, start ≤ page → page < start + count → space.dirty.bit page = false) ∧
    ∀ page, after.isCommitted page = false → after.dirty.bit page = space.dirty.bit page := by
  rcases Nat.eq_zero_or_pos count with rfl | hpos
  · rw [commit_zero] at h
    cases h
    refine ⟨iff_of_true rfl fun page hge hlt => ?_, fun page _ => rfl⟩
    omega
  · have legal := legal_of_commit_ok sound hpos (congrArg Run.result h)
    rcases legal.commit_run sound hpos with ⟨_, _, hrun, -, hiff⟩ | ⟨_, _, hrun, -⟩
    · cases hrun.symm.trans h
      refine ⟨hiff, fun page hclear => ?_⟩
      rw [isCommitted_acquired sound hpos legal, Bool.or_eq_false_iff, decide_eq_false_iff_not]
        at hclear
      rw [bit_dirty_acquired sound legal.le_committable, decide_eq_false hclear.2, Bool.and_false,
        Bool.not_false, Bool.and_true]
    · cases hrun.symm.trans h

/-- The same of each of the commits that came to their end, with the pages as they were at first. -/
theorem zeroFilled_iff_of_transcript (transcript : Transcript space answers after)
    (sound : space.Sound) (hcommits : ∀ answer ∈ answers, answer.call.kind = .commit) :
    ∀ answer ∈ answers, (answer.zeroFilled = true ↔
      ∀ page, answer.Covers page → space.dirty.bit page = false) := by
  induction transcript with
  | done => exact fun answer hanswer => absurd hanswer List.not_mem_nil
  | commit hrun rest ih =>
    have hlater := fun answer hanswer => hcommits answer (List.mem_cons_of_mem _ hanswer)
    obtain ⟨sound', -⟩ := of_commit_ok sound hrun
    obtain ⟨hzero, hkept⟩ := zeroFilled_iff_of_commit sound hrun
    intro answer hanswer
    rcases List.mem_cons.mp hanswer with rfl | hrest
    · refine hzero.trans (forall_congr' fun page => ?_)
      exact ⟨fun h covers => h covers.1 covers.2, fun h hge hlt => h ⟨hge, hlt⟩⟩
    · refine (ih sound' hlater answer hrest).trans (forall₂_congr fun page covers => ?_)
      -- A page that is committed later was not committed by this commit.
      rw [hkept page (((of_transcript rest sound' hlater).2 page).2 answer hrest covers)]
  | pretouch => cases hcommits _ List.mem_cons_self

end PageSpace

end RegionBacking
