import RegionBacking.Proofs.Mapper.Batch
import Mathlib.Logic.Relation

/-!
# Mappers in use

A mapper is called any number of times. Between its calls other nodes may be set, a listener may
come or go, and what lies behind the store may change, for example which calls it refuses; a
relation on stores says how. As long as such a change leaves the books of the store in order, those
of the mapper are in order at all times (`Reachable.continues`).
-/

namespace RegionBacking.Mapper

variable {σ : Type}

/-! ## Calls -/

/-- A call of a mapper. -/
inductive Call where
  /-- Commits the regions `[start, start + count)`, perhaps with a pretoucher. -/
  | commit (start count : Nat) (pretoucher : Option Pretoucher)
  /-- Uncommits the regions `[start, start + count)`. -/
  | uncommit (start count : Nat)
deriving DecidableEq, Repr

namespace Call

/-- The operation of a call. -/
def run [PageStore σ] : Call → Op Refusal (Mapper σ) Unit
  | commit start count pretoucher => commitRegions start count pretoucher
  | uncommit start count => uncommitRegions start count

/-- The pretoucher that comes with a call. -/
def pretoucher : Call → Option Pretoucher
  | commit _ _ pretoucher => pretoucher
  | uncommit .. => none

/-- The bytes that a worker of the pretoucher takes at a time are a word. -/
def InWords (call : Call) : Prop := ∀ worker ∈ call.pretoucher, worker.chunkSize < Word.limit

instance (call : Call) : Decidable call.InWords :=
  inferInstanceAs (Decidable (∀ worker ∈ call.pretoucher, worker.chunkSize < Word.limit))

end Call

/-- What can become of a mapper in one step. By itself its store changes as `between` allows. -/
inductive Follows [PageStore σ] (between : σ → σ → Prop) (mapper : Mapper σ) : Mapper σ → Prop where
  | call (call : Call) (inWords : call.InWords) : Follows between mapper (call.run mapper).state
  | listener (listener : Listener) : Follows between mapper { mapper with listener }
  | nodes (nodes : Nodes) : Follows between mapper (mapper.withNodes nodes)
  | store (store : σ) (h : between mapper.store store) :
    Follows between mapper { mapper with store }

/-- What can become of a mapper in any number of steps. -/
def Reachable [PageStore σ] (between : σ → σ → Prop) : Mapper σ → Mapper σ → Prop :=
  Relation.ReflTransGen (Follows between)

variable [PageStore σ] [LawfulStore σ] {mapper after last : Mapper σ} {between : σ → σ → Prop}

/-! ## One call -/

/-- No pass over the pages of a region leaves the machine words. -/
def Spacious (mapper : Mapper σ) : Prop :=
  ∀ pages, mapper.strategy = .large pages → ∀ worker : Pretoucher, worker.chunkSize < Word.limit →
    PageStore.pages mapper.store + worker.chunkPages (PageStore.pageSize mapper.store) < Word.limit

/-- A mapper comes after another one: its books are in order, its pages are where they were and its
regions lie on the same pages. -/
structure Continues (mapper after : Mapper σ) : Prop where
  sound : after.Sound
  succeeds : Succeeds mapper.store after.store
  size_eq : after.committed.size = mapper.committed.size
  shape_eq : after.strategy.shape = mapper.strategy.shape

namespace Continues

theorem refl (sound : mapper.Sound) : Continues mapper mapper :=
  ⟨sound, .refl sound.store_sound, rfl, rfl⟩

theorem trans (first : Continues mapper after) (second : Continues after last) :
    Continues mapper last :=
  ⟨second.sound, first.succeeds.trans second.succeeds, second.size_eq.trans first.size_eq,
    second.shape_eq.trans first.shape_eq⟩

theorem of_reaches {answers : List Answer} {trace : List Effect} (sound : after.Sound)
    (reaches : Reaches mapper after answers trace) : Continues mapper after :=
  ⟨sound, reaches.succeeds, reaches.size_eq, reaches.shape_eq⟩

theorem spacious (continues : Continues mapper after) (spacious : mapper.Spacious) :
    after.Spacious := by
  intro pages hlarge worker hworker
  have hshape := continues.shape_eq
  rw [hlarge] at hshape
  rw [continues.succeeds.geometry.pages_eq, continues.succeeds.geometry.pageSize_eq]
  cases hstrategy : mapper.strategy with
  | large pages => exact spacious pages hstrategy worker hworker
  | small regions references =>
    rw [hstrategy] at hshape
    cases hshape

end Continues

/-- What is sure of the run of a call. The store was asked for what `answers` lists, in this order:
to commit pages none of which was backed, or to uncommit pages all of which were. -/
structure Orderly (mapper : Mapper σ) (call : Call) (answers : List Answer) : Prop where
  continues : Continues mapper (call.run mapper).state
  stores : StoreRun mapper.store answers (call.run mapper).state.store
  calls_eq : Effect.calls (call.run mapper).trace = answers.map (·.call)
  of_commit : ∀ start count pretoucher, call = .commit start count pretoucher →
    Without .uncommit answers
  of_uncommit : ∀ start count, call = .uncommit start count →
    Without .commit answers ∧ Effect.notifications (call.run mapper).trace = [] ∧
      ∀ stop, (call.run mapper).result = .error stop → stop.Counted

theorem Orderly.of_run {call : Call} {answers : List Answer} {trace : List Effect}
    {result : Except (Stop Refusal) Unit} (hrun : call.run mapper = ⟨result, after, trace⟩)
    (continues : Continues mapper after) (stores : StoreRun mapper.store answers after.store)
    (hcalls : Effect.calls trace = answers.map (·.call))
    (of_commit : ∀ start count pretoucher, call = .commit start count pretoucher →
      Without .uncommit answers)
    (of_uncommit : ∀ start count, call = .uncommit start count →
      Without .commit answers ∧ Effect.notifications trace = [] ∧
        ∀ stop, result = .error stop → stop.Counted) :
    mapper.Orderly call answers := by
  constructor
  case of_commit => exact of_commit
  all_goals rw [hrun]
  case continues => exact continues
  case stores => exact stores
  case calls_eq => exact hcalls
  case of_uncommit => exact of_uncommit

theorem commit_orderly (sound : mapper.Sound) (spacious : mapper.Spacious) (start count : Nat)
    (pretoucher : Option Pretoucher) (inWords : (Call.commit start count pretoucher).InWords) :
    ∃ answers, mapper.Orderly (.commit start count pretoucher) answers := by
  by_cases ready : mapper.Ready false start count
  · rcases commitRegions_run sound ready pretoucher
        (fun pages hlarge worker hworker => spacious pages hlarge worker (inWords worker hworker))
      with ⟨zeroFilled, after, trace, answers, hrun, hdone, -⟩ |
        ⟨stop, after, trace, answers, region, hrun, hdone, -⟩
    · refine ⟨answers, .of_run hrun (.of_reaches hdone.sound hdone.reaches) hdone.reaches.run ?_
        (fun _ _ _ _ => hdone.without) fun _ _ => nofun⟩
      rw [Effect.calls_append, calls_told, List.append_nil]
      exact hdone.reaches.calls_eq
    · exact ⟨answers, .of_run hrun (.of_reaches hdone.sound hdone.reaches) hdone.reaches.run
        hdone.reaches.calls_eq (fun _ _ _ _ => hdone.without) fun _ _ => nofun⟩
  · obtain ⟨fault, -, hrun⟩ := commitRegions_fault ready pretoucher
    exact ⟨[], .of_run hrun (.refl sound) (.done _) rfl (fun _ _ _ _ => .nil) fun _ _ => nofun⟩

theorem uncommit_orderly (sound : mapper.Sound) (start count : Nat) :
    ∃ answers, mapper.Orderly (.uncommit start count) answers := by
  by_cases ready : mapper.Ready true start count
  · rcases uncommitRegions_run sound ready with ⟨after, trace, answers, hrun, hdone⟩ |
      ⟨stop, after, trace, answers, region, hrun, hdone, -, -, -, hrejects⟩
    · exact ⟨answers, .of_run hrun (.of_reaches hdone.sound hdone.reaches) hdone.reaches.run
        hdone.reaches.calls_eq (fun _ _ _ => nofun)
        fun _ _ _ => ⟨hdone.without, hdone.reaches.notifications_eq, fun _ => nofun⟩⟩
    · refine ⟨answers, .of_run hrun (.of_reaches hdone.sound hdone.reaches) hdone.reaches.run
        hdone.reaches.calls_eq (fun _ _ _ => nofun)
        fun _ _ _ => ⟨hdone.without, hdone.reaches.notifications_eq, ?_⟩⟩
      intro stop' hstop page region hsame
      obtain ⟨refusal, rfl⟩ := hrejects.exists_refusal trivial
      cases hstop
      cases hsame
  · obtain ⟨fault, hkind, hrun⟩ := uncommitRegions_fault ready
    refine ⟨[], .of_run hrun (.refl sound) (.done _) rfl (fun _ _ _ => nofun)
      fun _ _ _ => ⟨.nil, rfl, ?_⟩⟩
    intro stop hstop
    cases hstop
    exact Fault.counted_of_isOfRegions hkind

/-- Every call from books in order is orderly, whatever its range and however it ends. -/
theorem call_orderly (sound : mapper.Sound) (spacious : mapper.Spacious) (call : Call)
    (inWords : call.InWords) : ∃ answers, mapper.Orderly call answers := by
  cases call with
  | commit start count pretoucher =>
    exact commit_orderly sound spacious start count pretoucher inWords
  | uncommit start count => exact uncommit_orderly sound start count

/-! ## Any number of steps -/

theorem Follows.continues (follows : Follows between mapper after) (harmless : Harmless between)
    (sound : mapper.Sound) (spacious : mapper.Spacious) : Continues mapper after := by
  cases follows with
  | call call inWords =>
    obtain ⟨answers, orderly⟩ := call_orderly sound spacious call inWords
    exact orderly.continues
  | listener listener =>
    exact ⟨sound.congr rfl rfl rfl, .refl sound.store_sound, rfl, rfl⟩
  | nodes nodes =>
    exact ⟨sound.congr rfl rfl rfl, .refl sound.store_sound, rfl, rfl⟩
  | store store h =>
    -- The store changed by itself, but it still backs the pages that the books say it does.
    have same := harmless h sound.store_sound
    exact ⟨sound.of_sameBacking rfl rfl same, same.toSucceeds, rfl, rfl⟩

/-- The books are in order at all times. -/
theorem Reachable.continues (h : Reachable between mapper after) (harmless : Harmless between)
    (sound : mapper.Sound) (spacious : mapper.Spacious) : Continues mapper after := by
  induction h with
  | refl => exact .refl sound
  | tail _ follows ih => exact ih.trans (follows.continues harmless ih.sound (ih.spacious spacious))

end RegionBacking.Mapper
