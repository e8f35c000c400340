import RegionBacking.Proofs.Mapper.Usage
import RegionBacking.Proofs.PageSpace.Alike

/-!
# Mappers that are alike

Two mappers over page spaces are alike if all that can be asked of them is the same, apart from the
way in which they divide regions into pages. Their runs agree if they have the same result, leave
mappers that are alike and show the same effects to those who see neither the log nor the requests
to back pages. A call agrees as soon as the part of it does in which the strategies differ
(`commitRegions_agrees`, `uncommitRegions_agrees`).
-/

namespace RegionBacking

/-! ## What is seen of a call -/

/-- Whether an effect is seen by those who see neither the log nor the requests to back pages. -/
def Effect.isSeen : Effect → Bool
  | .call c => decide (c.kind = .pretouch)
  | .event _ | .placement _ | .notification _ => true
  | .request _ | .record _ => false

/-- Nothing of what a store shows is seen. -/
theorem Quiet.filter_isSeen {trace : List Effect} (quiet : Quiet trace) :
    trace.filter Effect.isSeen = [] := by
  apply List.filter_eq_nil_iff.mpr
  intro effect heffect
  have hstore := quiet effect heffect
  cases effect <;> first | exact Bool.false_ne_true | cases hstore

namespace Mapper

/-- Two mappers have the same settings, counters and listener. -/
structure SameSettings (mapper other : Mapper PageSpace) : Prop where
  regionSize_eq : other.regionSize = mapper.regionSize
  memoryKind_eq : other.memoryKind = mapper.memoryKind
  alwaysPretouch_eq : other.alwaysPretouch = mapper.alwaysPretouch
  activity_eq : other.activity = mapper.activity
  listener_eq : other.listener = mapper.listener

/-- Two mappers with the same regions and nodes over page spaces that are alike. -/
structure Alike (mapper other : Mapper PageSpace) : Prop extends SameSettings mapper other where
  store : mapper.store.Alike other.store
  committed_eq : other.committed = mapper.committed
  nodes_eq : other.nodes = mapper.nodes

variable {mapper other : Mapper PageSpace} {start count : Nat}

theorem Alike.withActivity (alike : mapper.Alike other) {activity activity' : Activity}
    (h : activity' = activity) :
    (mapper.withActivity activity).Alike (other.withActivity activity') :=
  ⟨⟨alike.regionSize_eq, alike.memoryKind_eq, alike.alwaysPretouch_eq, h, alike.listener_eq⟩,
    alike.store, alike.committed_eq, alike.nodes_eq⟩

/-- The runs agree of two operations on mappers. -/
def Agrees {α : Type} (run other : Run Refusal (Mapper PageSpace) α) : Prop :=
  run.Agrees Alike Effect.isSeen other

/-! ## Reports -/

theorem count_agrees (alike : mapper.Alike other) (change : Activity → Activity) :
    Agrees (Mapper.count change mapper) (Mapper.count change other) :=
  ⟨rfl, alike.withActivity (congrArg change alike.activity_eq), rfl⟩

theorem notify_agrees (alike : mapper.Alike other) (start count : Nat) (zeroFilled : Bool) :
    Agrees (notify start count zeroFilled mapper) (notify start count zeroFilled other) := by
  rw [notify_run, notify_run]
  refine ⟨rfl, alike, ?_⟩
  rw [told, told, alike.listener_eq]

theorem reportCommit_agrees (alike : mapper.Alike other) (start count : Nat) (backing : Backing) :
    Agrees (reportCommit start count backing mapper) (reportCommit start count backing other) := by
  unfold reportCommit
  rw [Op.get_bind, Op.get_bind, alike.memoryKind_eq]
  by_cases hplaced : backing.placements ≠ 0
  · simp only [if_pos hplaced]
    exact ⟨rfl, alike.withActivity
      (congrArg (fun activity => (activity.commit count backing.pages).place backing.placements)
        alike.activity_eq), rfl⟩
  · simp only [if_neg hplaced]
    exact ⟨rfl, alike.withActivity
      (congrArg (fun activity => activity.commit count backing.pages) alike.activity_eq), rfl⟩

theorem reportFailure_agrees (alike : mapper.Alike other) (start count : Nat)
    (refusal : Refusal) :
    Agrees (reportFailure start count refusal mapper)
      (reportFailure start count refusal other) := by
  unfold reportFailure
  rw [Op.get_bind, Op.get_bind, alike.memoryKind_eq]
  exact ⟨rfl, alike.withActivity (congrArg Activity.commitFailure alike.activity_eq), rfl⟩

/-! ## Passes over pages -/

/-- A pass over the pages of two stores that are alike ends in the same way and shows the same. -/
theorem pretouchPages_alike (mapper other : Mapper PageSpace)
    (hstore : mapper.store.Alike other.store)
    (halways : other.alwaysPretouch = mapper.alwaysPretouch)
    (hactivity : other.activity = mapper.activity) (start count : Nat)
    (pretoucher : Option Pretoucher) :
    ∃ result store store' activity trace trace',
      pretouchPages start count pretoucher mapper =
        ⟨result, (mapper.withStore store).withActivity activity, trace⟩ ∧
      pretouchPages start count pretoucher other =
        ⟨result, (other.withStore store').withActivity activity, trace'⟩ ∧
      store.Alike store' ∧ trace'.filter Effect.isSeen = trace.filter Effect.isSeen := by
  have hother : (other.withStore other.store).withActivity mapper.activity = other := by
    rw [← hactivity]
    rfl
  unfold pretouchPages
  rw [Op.get_bind, Op.get_bind, halways]
  cases pretoucher with
  | none =>
    exact ⟨.ok (), mapper.store, other.store, mapper.activity, [], [], rfl, by rw [hother]; rfl,
      hstore, rfl⟩
  | some worker =>
    by_cases hpretouch : (mapper.alwaysPretouch && count != 0) = true
    · obtain ⟨result, store, store', trace, trace', hrun, hrun', halike, hquiet, hquiet'⟩ :=
        hstore.pretouch_run start count worker
      have hcall := onStore_run ⟨.pretouch, start, count⟩
        (PageStore.pretouch start count worker) mapper
      have hcall' := onStore_run ⟨.pretouch, start, count⟩
        (PageStore.pretouch start count worker) other
      rw [show PageStore.pretouch start count worker mapper.store = _ from hrun] at hcall
      rw [show PageStore.pretouch start count worker other.store = _ from hrun'] at hcall'
      have hseen : (Effect.call ⟨.pretouch, start, count⟩ :: trace').filter Effect.isSeen =
          (Effect.call ⟨.pretouch, start, count⟩ :: trace).filter Effect.isSeen := by
        rw [List.filter_cons, List.filter_cons, hquiet.filter_isSeen, hquiet'.filter_isSeen]
      simp only [if_pos hpretouch]
      cases result with
      | error stop =>
        exact ⟨.error stop, store, store', mapper.activity, _, _, Op.bind_run_error hcall,
          by rw [Op.bind_run_error hcall', ← hactivity]; rfl, halike, hseen⟩
      | ok report =>
        refine ⟨.ok (), store, store', mapper.activity.pretouch report.pages, _,
          .call ⟨.pretouch, start, count⟩ :: trace' ++
            [.event (.pretouch report.pages report.workers .zero)],
          Op.bind_eq_after hcall, ?_, halike, ?_⟩
        · rw [← hactivity]
          exact Op.bind_eq_after hcall'
        · rw [List.filter_append, hseen]
          exact (List.filter_append _ _).symm
    · simp only [if_neg hpretouch]
      exact ⟨.ok (), mapper.store, other.store, mapper.activity, [], [], rfl, by rw [hother]; rfl,
        hstore, rfl⟩

/-! ## Whole calls -/

theorem Alike.ready (alike : mapper.Alike other) {status : Bool}
    (ready : mapper.Ready status start count) : other.Ready status start count := by
  constructor <;> rw [alike.committed_eq]
  · exact ready.le_size
  · exact ready.bit_eq

/-- A commit agrees if the way does in which its pages are backed. -/
theorem commitRegions_agrees (alike : mapper.Alike other) (start count : Nat)
    (pretoucher : Option Pretoucher)
    (hback : 0 < count → mapper.Ready false start count →
      Agrees (backRegions start count pretoucher mapper)
        (backRegions start count pretoucher other)) :
    Agrees (commitRegions start count pretoucher mapper)
      (commitRegions start count pretoucher other) := by
  by_cases ready : mapper.Ready false start count
  · rw [ready.commitRegions_eq, (alike.ready ready).commitRegions_eq]
    rcases Nat.eq_zero_or_pos count with rfl | hcount
    · simp only [if_true]
      exact Op.bind_agrees (count_agrees alike _) fun _ _ _ alike =>
        notify_agrees alike start 0 true
    · simp only [if_neg (Nat.ne_of_gt hcount)]
      -- Behind the pages both mappers go the same way, whether these were refused or not.
      refine Op.bind_agrees (Op.recover_agrees (hback hcount ready) fun refusal _ _ alike =>
        reportFailure_agrees alike start count refusal) fun backing _ _ alike => ?_
      exact Op.bind_agrees (reportCommit_agrees alike start count backing) fun _ _ _ alike =>
        notify_agrees alike start count backing.zeroFilled
  · obtain ⟨fault, -, hrun⟩ := commitRegions_fault_of_bits ready pretoucher
    rw [hrun mapper rfl, hrun other alike.committed_eq]
    exact ⟨rfl, alike, rfl⟩

/-- An uncommit agrees if the way does in which its pages are given up. -/
theorem uncommitRegions_agrees (alike : mapper.Alike other) (start count : Nat)
    (hback : mapper.Ready true start count →
      Agrees (unbackRegions start count mapper) (unbackRegions start count other)) :
    Agrees (uncommitRegions start count mapper) (uncommitRegions start count other) := by
  by_cases ready : mapper.Ready true start count
  · rw [ready.uncommitRegions_eq, (alike.ready ready).uncommitRegions_eq, alike.memoryKind_eq]
    exact Op.bind_agrees (hback ready) fun pages _ _ alike =>
      ⟨rfl, alike.withActivity
        (congrArg (fun activity => activity.uncommit count pages) alike.activity_eq), rfl⟩
  · obtain ⟨fault, -, hrun⟩ := uncommitRegions_fault_of_bits ready
    rw [hrun mapper rfl, hrun other alike.committed_eq]
    exact ⟨rfl, alike, rfl⟩

end Mapper

end RegionBacking
