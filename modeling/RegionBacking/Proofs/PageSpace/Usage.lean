import RegionBacking.Proofs.PageSpace.Meanwhile
import RegionBacking.Proofs.PageSpace.Reserve
import Mathlib.Logic.Relation

/-!
# Page spaces in use

A page space is called any number of times and for any pages, also for pages that it does not have;
a call may be refused, and it may be at fault. Between two calls the machine may come to refuse
other requests and bytes of committed pages are written. What is kept by each move of a space whose
books are in order, and by what happens in between, holds at all times (`Reachable.invariant`).
-/

namespace RegionBacking.PageSpace

/-! ## Calls -/

/-- A call of a page space, for the `count` pages from `start`. -/
inductive Call where
  | commit (start count : Nat)
  | uncommit (start count : Nat)
  | pretouch (start count : Nat) (pretoucher : Pretoucher)
deriving DecidableEq, Repr

namespace Call

/-- What a call gives back. -/
def Value : Call → Type
  | commit .. => Bool
  | uncommit .. => Unit
  | pretouch .. => PretouchReport

instance : (call : Call) → DecidableEq call.Value
  | commit .. => inferInstanceAs (DecidableEq Bool)
  | uncommit .. => inferInstanceAs (DecidableEq Unit)
  | pretouch .. => inferInstanceAs (DecidableEq PretouchReport)

/-- The operation of a call. -/
def run : (call : Call) → Op Refusal PageSpace call.Value
  | commit start count => PageSpace.commit start count
  | uncommit start count => PageSpace.uncommit start count
  | pretouch start count pretoucher => PageSpace.pretouch start count pretoucher

/-- The pages that a call is for. -/
def pages : Call → PageRange
  | commit start count => ⟨start, start + count⟩
  | uncommit start count => ⟨start, start + count⟩
  | pretouch start count _ => ⟨start, start + count⟩

end Call

/-- What can become of a page space in one step. -/
inductive Follows (space : PageSpace) : PageSpace → Prop where
  | call (call : Call) : Follows space (call.run space).state
  | meanwhile {after : PageSpace} (h : space.Meanwhile after) : Follows space after

/-- What can become of a page space in any number of steps. -/
def Reachable : PageSpace → PageSpace → Prop := Relation.ReflTransGen Follows

/-! ## One step -/

variable {first space after : PageSpace}

theorem Call.moves (call : Call) (sound : space.Sound) : space.Moves (call.run space).state := by
  cases call with
  | commit start count => exact .of_commit sound start count
  | uncommit start count => exact .of_uncommit sound start count
  | pretouch start count pretoucher => exact .of_pretouch space start count pretoucher

theorem Meanwhile.sound (meanwhile : space.Meanwhile after) (sound : space.Sound) :
    after.Sound := by
  obtain ⟨machine, rfl⟩ := meanwhile.of_machine
  exact sound.of_machine machine

theorem Meanwhile.sameLayout (meanwhile : space.Meanwhile after) : SameLayout space after := by
  obtain ⟨machine, rfl⟩ := meanwhile.of_machine
  exact ⟨rfl, rfl, rfl⟩

theorem Follows.sound (follows : space.Follows after) (sound : space.Sound) : after.Sound := by
  cases follows with
  | call call => exact (call.moves sound).sound sound
  | meanwhile h => exact h.sound sound

/-! ## The faults of a call -/

theorem commit_fault (sound : space.Sound) {start count : Nat} {fault : Fault}
    (h : (commit start count space).result = .error (.fault fault)) :
    fault.isOfBounds = true ∨ fault.isOfPages = true := by
  rcases Nat.eq_zero_or_pos count with rfl | hpos
  · cases h
  by_cases legal : space.Legal false start (start + count)
  -- What is legal is granted or refused.
  · rcases legal.commit_run sound hpos with
      ⟨zeroFilled, trace, hrun, -⟩ | ⟨refusal, trace, hrun, -⟩
    all_goals
      rw [hrun] at h
      cases h
  · obtain ⟨fault', hkind, hrun⟩ := commit_eq_fault sound hpos legal
    rw [hrun] at h
    cases h
    exact hkind.imp id And.left

theorem uncommit_fault (sound : space.Sound) {start count : Nat} {fault : Fault}
    (h : (uncommit start count space).result = .error (.fault fault)) :
    fault.isOfBounds = true ∨ fault.isOfPages = true := by
  rcases Nat.eq_zero_or_pos count with rfl | hpos
  · cases h
  by_cases legal : space.Legal true start (start + count)
  · rcases legal.uncommit_run sound hpos with ⟨trace, hrun, -⟩ | ⟨refusal, trace, hrun, -⟩
    all_goals
      rw [hrun] at h
      cases h
  · obtain ⟨fault', hkind, hrun⟩ := uncommit_eq_fault sound hpos legal
    rw [hrun] at h
    cases h
    exact hkind

theorem touchFault?_isOfBounds {page : Nat} {fault : Fault}
    (h : space.touchFault? page = some fault) : fault.isOfBounds = true := by
  by_cases hlimit : space.firstAddress page < Word.limit
  · rw [touchFault?, pageStart_eq_ok hlimit] at h
    cases h
  · obtain ⟨fault', hkind, hfault⟩ := pageStart_eq_error hlimit
    rw [touchFault?, hfault] at h
    cases h
    exact hkind

theorem pretouch_fault {start count : Nat} {pretoucher : Pretoucher} {fault : Fault}
    (h : (pretouch start count pretoucher space).result = .error (.fault fault)) :
    fault.isOfSpace = true := by
  rcases pretouch_checked space start count pretoucher with ⟨fault', hkind, hrun⟩ | ⟨-, hrun⟩
  · rw [hrun] at h
    cases h
    exact hkind
  · obtain ⟨trace, -, hpass⟩ :=
      pretoucher.run_eq Refusal start count space.pageSize space.touchFault? touch space
    rw [hrun, hpass] at h
    simp only [] at h
    split at h
    · cases h
    · next hfault =>
      cases h
      have hkind := Pretoucher.pass_fault (fun _ _ => touchFault?_isOfBounds) hfault
      rcases hkind with hbounds | ⟨cause, rfl⟩
      · exact Fault.isOfSpace_of_or (.inl hbounds)
      · rfl

/-- A call stops for want of memory, or because its pages are not as they have to be. -/
theorem Call.isOfSpace_of_fault (call : Call) (sound : space.Sound) {fault : Fault}
    (h : (call.run space).result = .error (.fault fault)) : fault.isOfSpace = true := by
  cases call with
  | commit start count => exact Fault.isOfSpace_of_or (commit_fault sound h)
  | uncommit start count => exact Fault.isOfSpace_of_or (uncommit_fault sound h)
  | pretouch start count pretoucher => exact pretouch_fault h

/-! ## Any number of steps -/

namespace Reachable

theorem sound (h : first.Reachable space) (sound : first.Sound) : space.Sound := by
  induction h with
  | refl => exact sound
  | tail _ follows ih => exact follows.sound ih

/-- What each move of a space keeps, and what happens between two calls, holds at all times. -/
theorem invariant {motive : PageSpace → Prop} (h : first.Reachable space) (sound : first.Sound)
    (init : motive first)
    (moves : ∀ space after : PageSpace, space.Sound → space.Moves after → motive space →
      motive after)
    (meanwhile : ∀ space after : PageSpace, space.Sound → space.Meanwhile after → motive space →
      motive after) : motive space := by
  induction h with
  | refl => exact init
  | @tail middle after reached follows ih =>
    have hmiddle := Reachable.sound reached sound
    cases follows with
    | call call => exact moves _ _ hmiddle (call.moves hmiddle) ih
    | meanwhile h => exact meanwhile _ _ hmiddle h ih

theorem legible (h : first.Reachable space) (sound : first.Sound) (legible : first.Legible) :
    space.Legible :=
  h.invariant sound legible (fun _ _ sound moves legible => moves.legible sound legible)
    fun _ _ sound meanwhile legible => meanwhile.legible sound legible

theorem sameLayout (h : first.Reachable space) (sound : first.Sound) : SameLayout first space :=
  h.invariant sound (.refl first) (fun _ _ _ moves same => same.trans moves.sameLayout)
    fun _ _ _ meanwhile same => same.trans meanwhile.sameLayout

end Reachable

end RegionBacking.PageSpace
