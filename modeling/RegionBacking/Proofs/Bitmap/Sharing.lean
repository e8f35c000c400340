import Mathlib.Algebra.BigOperators.Fin
import Mathlib.Algebra.Order.BigOperators.Group.Finset
import RegionBacking.Bitmap.Shared
import RegionBacking.Proofs.Bitmap.Edits

/-!
# No update is lost

Callers that edit a bitmap at the same time disturb each other in none of their bits, also where the
bits share words, as long as no two of them edit the same bit. What carries the proof is that a step
changes the bits under its mask and no other: at any moment a bit of an edit is either still to come
or has its status (`Shared.Sound.brought`), and a bit of no edit is what it was. One step of one
caller keeps that (`Moves`, `Shared.Sound.put`), and so does a schedule (`Shared.Sound.run`).
-/

namespace RegionBacking

/-- A step on the word of a bit, under a mask that has the bit. -/
def WordStep.Covers (i : Nat) : WordStep → Prop
  | set word mask | clear word mask =>
    word = i / wordBits ∧ mask.getLsbD (i % wordBits) = true

namespace Bitmap

variable {bitmap next : Bitmap} {size i : Nat} {edit : Edit} {change : WordStep}

theorem covers_paint {status : Bool} {word : Nat} {mask : BitVec wordBits} :
    (paint status word mask).Covers i ↔
      word = i / wordBits ∧ mask.getLsbD (i % wordBits) = true := by
  cases status <;> exact Iff.rfl

/-- A step changes no bit that it does not cover. -/
theorem bit_apply_of_not_covers (h : ¬ change.Covers i) :
    (bitmap.apply change).bit i = bitmap.bit i := by
  cases change with
  | set word mask =>
    exact (bit_apply_paint bitmap true word mask i).trans (if_neg fun hin => h ⟨hin.1.1, hin.2⟩)
  | clear word mask =>
    exact (bit_apply_paint bitmap false word mask i).trans (if_neg fun hin => h ⟨hin.1.1, hin.2⟩)

namespace Edit

/-- The steps of an edit cover its bits, and no others. -/
theorem exists_covers_iff : (∃ step ∈ edit.pieces, step.Covers i) ↔
    edit.first ≤ i ∧ i < edit.last := by
  rw [← exists_mem_parts_iff]
  simp only [pieces, List.mem_map, exists_exists_and_eq_and, covers_paint]

/-- A step of an edit brings the bits that it covers to the target of the edit. -/
theorem bit_apply_of_covers (hchange : change ∈ edit.pieces) (hcovers : change.Covers i)
    (hi : i < bitmap.size) : (bitmap.apply change).bit i = edit.target := by
  obtain ⟨part, -, rfl⟩ := List.mem_map.mp hchange
  obtain ⟨hword, hmask⟩ := covers_paint.mp hcovers
  have hinside : part.1 < wordCount bitmap.size := hword ▸ div_lt_wordCount hi
  exact (bit_apply_paint bitmap edit.target part.1 part.2 i).trans
    (if_pos ⟨⟨hword, hinside⟩, hmask⟩)

end Edit

/-! ## Edits one after the other -/

/-- The bitmap after edits, each of which is made as a whole. -/
def inTurn (bitmap : Bitmap) (edits : List Edit) : Bitmap :=
  edits.foldl (fun bitmap edit => (edit.make bitmap).state) bitmap

@[simp] theorem size_inTurn (bitmap : Bitmap) (edits : List Edit) :
    (bitmap.inTurn edits).size = bitmap.size := by
  unfold inTurn
  induction edits generalizing bitmap with
  | nil => rfl
  | cons edit later ih => rw [List.foldl_cons, ih, Edit.size_make]

theorem bit_inTurn_of_notMem {edits : List Edit} (h : ∀ edit ∈ edits, i ∉ edit.indices bitmap.size) :
    (bitmap.inTurn edits).bit i = bitmap.bit i := by
  unfold inTurn
  induction edits generalizing bitmap with
  | nil => rfl
  | cons edit later ih =>
    rw [List.foldl_cons, ih, Edit.bit_make, if_neg (h edit List.mem_cons_self)]
    intro other hother
    rw [Edit.size_make]
    exact h other (List.mem_cons_of_mem edit hother)

theorem bit_inTurn_of_mem {edits : List Edit}
    (apart : edits.Pairwise fun a b => Disjoint (a.indices bitmap.size) (b.indices bitmap.size))
    (hedit : edit ∈ edits) (hi : i ∈ edit.indices bitmap.size) :
    (bitmap.inTurn edits).bit i = edit.target := by
  induction edits generalizing bitmap with
  | nil => cases hedit
  | cons first later ih =>
    obtain ⟨hfirst, hlater⟩ := List.pairwise_cons.mp apart
    show ((first.make bitmap).state.inTurn later).bit i = edit.target
    rcases List.mem_cons.mp hedit with rfl | hedit
    · rw [bit_inTurn_of_notMem, Edit.bit_make, if_pos hi]
      intro other hother
      rw [Edit.size_make]
      exact Finset.disjoint_left.mp (hfirst other hother) hi
    · exact ih (by rwa [Edit.size_make]) hedit (by rwa [Edit.size_make])

/-! ## Callers -/

namespace Caller

variable {caller old new : Caller}

/-- A caller with this edit. -/
def Serves (size : Nat) (edit : Edit) : Caller → Prop
  | waiting own => own = edit
  | underway steps => edit.Fits size ∧ steps <:+ edit.pieces
  | failed fault => ¬ edit.Fits size ∧ fault = edit.fault size

/-- A bit that a caller is still to bring to the target of its edit. -/
def Owes (size i : Nat) : Caller → Prop
  | waiting edit => i ∈ edit.indices size
  | underway steps => ∃ step ∈ steps, step.Covers i
  | failed _ => False

/-- The steps that a caller makes until it stops, at most. -/
def work : Caller → Nat
  | waiting edit => edit.pieces.length + 1
  | underway steps => steps.length
  | failed _ => 0

theorem Serves.mem_indices (serves : caller.Serves size edit) (h : caller.Owes size i) :
    i ∈ edit.indices size := by
  cases caller with
  | waiting own => rwa [← (serves : own = edit)]
  | underway steps =>
    obtain ⟨step, hstep, hcovers⟩ := h
    exact Edit.mem_indices_iff.mpr
      ⟨serves.1, Edit.exists_covers_iff.mp ⟨step, serves.2.mem hstep, hcovers⟩⟩
  | failed fault => exact h.elim

theorem not_owes_of_hasStopped (h : caller.hasStopped = true) : ¬ caller.Owes size i := by
  cases caller with
  | waiting own => cases h
  | underway steps =>
    cases steps with
    | nil => simp [Owes]
    | cons step later => cases h
  | failed fault => exact id

/-- What a step of a caller does. -/
structure Moves (size : Nat) (edit : Edit) (bitmap : Bitmap) (old : Caller) (next : Bitmap)
    (new : Caller) : Prop where
  size_eq : next.size = bitmap.size
  serves : new.Serves size edit
  work_lt : new.work < old.work
  /-- A bit that is to come still is, or it has come. -/
  brings : ∀ i, old.Owes size i → new.Owes size i ∨ next.bit i = edit.target
  /-- All other bits are left alone. -/
  keeps : ∀ i, ¬ old.Owes size i → ¬ new.Owes size i ∧ next.bit i = bitmap.bit i

theorem moves_of_waiting (hsize : bitmap.size = size)
    (h : (waiting edit).step bitmap = some (next, new)) :
    Moves size edit bitmap (waiting edit) next new := by
  simp only [step, edit.steps_eq, hsize] at h
  by_cases hfits : edit.Fits size
  · rw [if_pos hfits] at h
    cases h
    have howes : ∀ i, (waiting edit).Owes size i ↔ (underway edit.pieces).Owes size i := fun i =>
      Edit.mem_indices_iff.trans ((and_iff_right hfits).trans Edit.exists_covers_iff.symm)
    exact ⟨rfl, ⟨hfits, List.suffix_rfl⟩, Nat.lt_succ_self _, fun i hi => .inl ((howes i).mp hi),
      fun i hi => ⟨fun hnew => hi ((howes i).mpr hnew), rfl⟩⟩
  · rw [if_neg hfits] at h
    cases h
    exact ⟨rfl, ⟨hfits, rfl⟩, Nat.succ_pos _,
      fun i hi => (hfits (Edit.mem_indices_iff.mp hi).1).elim, fun i _ => ⟨id, rfl⟩⟩

theorem moves_of_underway {later : List WordStep} (hsize : bitmap.size = size)
    (serves : (underway (change :: later)).Serves size edit) :
    Moves size edit bitmap (underway (change :: later)) (bitmap.apply change) (underway later) := by
  have hchange : change ∈ edit.pieces := serves.2.mem List.mem_cons_self
  refine ⟨size_apply bitmap change, ⟨serves.1, (List.suffix_cons change later).trans serves.2⟩,
    Nat.lt_succ_self _, fun i hi => ?_, fun i hi => ?_⟩
  · by_cases hcovers : change.Covers i
    · have hlast := (Edit.mem_indices_iff.mp (serves.mem_indices hi)).2.2
      exact .inr (Edit.bit_apply_of_covers hchange hcovers
        (hsize ▸ Nat.lt_of_lt_of_le hlast serves.1.2))
    · obtain ⟨other, hother, hin⟩ := hi
      rcases List.mem_cons.mp hother with rfl | hother
      · exact (hcovers hin).elim
      · exact .inl ⟨other, hother, hin⟩
  · refine ⟨?_, bit_apply_of_not_covers fun hin => hi ⟨change, List.mem_cons_self, hin⟩⟩
    rintro ⟨other, hother, hin⟩
    exact hi ⟨other, List.mem_cons_of_mem change hother, hin⟩

theorem moves_of_step (hsize : bitmap.size = size) (serves : old.Serves size edit)
    (h : old.step bitmap = some (next, new)) : Moves size edit bitmap old next new := by
  cases old with
  | waiting own =>
    obtain rfl : own = edit := serves
    exact moves_of_waiting hsize h
  | underway steps =>
    cases steps with
    | nil => cases h
    | cons step later =>
      cases h
      exact moves_of_underway hsize serves
  | failed fault => cases h

/-- A caller that has not stopped makes a step. -/
theorem exists_step (h : caller.hasStopped = false) (bitmap : Bitmap) :
    ∃ next, caller.step bitmap = some next := by
  cases caller with
  | waiting edit =>
    rw [step]
    split
    · exact ⟨_, rfl⟩
    · exact ⟨_, rfl⟩
  | underway steps =>
    cases steps with
    | nil => cases h
    | cons step later => exact ⟨_, rfl⟩
  | failed fault => cases h

end Caller

/-! ## All callers -/

namespace Shared

variable {callers : Nat} {shared after : Shared callers} {edits : Fin callers → Edit}
  {index : Fin callers} {schedule : List (Fin callers)}

/-- The steps that the callers make until they have stopped, at most. -/
def work (shared : Shared callers) : Nat := ∑ index, (shared.caller index).work

/-- Where the bits are while the callers make their steps. -/
structure Sound (bitmap : Bitmap) (edits : Fin callers → Edit) (shared : Shared callers) :
    Prop where
  size_eq : shared.bitmap.size = bitmap.size
  serves : ∀ index, (shared.caller index).Serves bitmap.size (edits index)
  /-- A bit of an edit is still to come, or it has. -/
  brought : ∀ index, ∀ i ∈ (edits index).indices bitmap.size,
    (shared.caller index).Owes bitmap.size i ∨ shared.bitmap.bit i = (edits index).target
  /-- A bit of no edit is what it was. -/
  kept : ∀ i, (∀ index, i ∉ (edits index).indices bitmap.size) →
    shared.bitmap.bit i = bitmap.bit i

theorem sound_start (bitmap : Bitmap) (edits : Fin callers → Edit) :
    (start bitmap edits).Sound bitmap edits :=
  ⟨rfl, fun _ => rfl, fun _ _ hi => .inl hi, fun _ _ => rfl⟩

/-- No two callers edit the same bit. -/
def Apart (size : Nat) (edits : Fin callers → Edit) : Prop :=
  Pairwise fun a b => Disjoint ((edits a).indices size) ((edits b).indices size)

/-- A step of one caller leaves the bits of the others alone. -/
theorem Sound.put (sound : shared.Sound bitmap edits) (apart : Apart bitmap.size edits)
    {new : Caller} (moves : Caller.Moves bitmap.size (edits index) shared.bitmap
      (shared.caller index) next new) : (shared.put index (next, new)).Sound bitmap edits := by
  have hforeign : ∀ i, i ∉ (edits index).indices bitmap.size →
      next.bit i = shared.bitmap.bit i := fun i hi =>
    (moves.keeps i fun howes => hi ((sound.serves index).mem_indices howes)).2
  refine ⟨moves.size_eq.trans sound.size_eq, fun other => ?_, fun other i hi => ?_,
    fun i hi => (hforeign i (hi index)).trans (sound.kept i hi)⟩
  · by_cases hother : other = index
    · subst hother
      simp only [Shared.put, Function.update_self]
      exact moves.serves
    · simp only [Shared.put, Function.update_of_ne hother]
      exact sound.serves other
  · by_cases hother : other = index
    · subst hother
      simp only [Shared.put, Function.update_self]
      by_cases howes : (shared.caller other).Owes bitmap.size i
      · exact moves.brings i howes
      · exact .inr ((moves.keeps i howes).2.trans ((sound.brought other i hi).resolve_left howes))
    · simp only [Shared.put, Function.update_of_ne hother]
      rw [hforeign i (Finset.disjoint_left.mp (apart hother) hi)]
      exact sound.brought other i hi

theorem Sound.step (sound : shared.Sound bitmap edits) (apart : Apart bitmap.size edits)
    (h : shared.step index = some after) :
    after.Sound bitmap edits ∧ after.work < shared.work := by
  obtain ⟨next, hnext, rfl⟩ := Option.map_eq_some_iff.mp h
  have moves := Caller.moves_of_step sound.size_eq (sound.serves index) hnext
  refine ⟨sound.put apart moves, Finset.sum_lt_sum (fun other _ => ?_)
    ⟨index, Finset.mem_univ index, ?_⟩⟩
  · by_cases hother : other = index
    · subst hother
      simp only [Shared.put, Function.update_self]
      exact Nat.le_of_lt moves.work_lt
    · simp only [Shared.put, Function.update_of_ne hother, Nat.le_refl]
  · simp only [Shared.put, Function.update_self]
    exact moves.work_lt

theorem Sound.run (sound : shared.Sound bitmap edits) (apart : Apart bitmap.size edits)
    (h : shared.run schedule = some after) :
    after.Sound bitmap edits ∧ schedule.length + after.work ≤ shared.work := by
  induction schedule generalizing shared with
  | nil =>
    cases h
    exact ⟨sound, Nat.le_of_eq (Nat.zero_add _)⟩
  | cons index later ih =>
    obtain ⟨next, hnext, hlater⟩ := Option.bind_eq_some_iff.mp h
    obtain ⟨hsound, hwork⟩ := sound.step apart hnext
    obtain ⟨hsound', hwork'⟩ := ih hsound hlater
    refine ⟨hsound', ?_⟩
    rw [List.length_cons]
    omega

/-- As long as not all callers have stopped, one of them can go on. -/
theorem goes_on (shared : Shared callers) :
    shared.Finished ∨ ∃ index next, shared.step index = some next := by
  by_cases hfinished : shared.Finished
  · exact .inl hfinished
  · obtain ⟨index, hindex⟩ := not_forall.mp hfinished
    obtain ⟨next, hnext⟩ := Caller.exists_step (Bool.eq_false_iff.mpr hindex) shared.bitmap
    exact .inr ⟨index, shared.put index next, Option.map_eq_some_iff.mpr ⟨next, hnext, rfl⟩⟩

/-- What holds at any moment. A caller that is done has all of its bits brought to its target,
whatever the others have done since, only an edit of bits that the bitmap does not have fails, and
one caller can go on as long as not all have stopped. -/
structure Orderly (bitmap : Bitmap) (edits : Fin callers → Edit) (shared : Shared callers) :
    Prop where
  size_eq : shared.bitmap.size = bitmap.size
  brought : ∀ index, (shared.caller index).hasStopped = true →
    ∀ i ∈ (edits index).indices bitmap.size, shared.bitmap.bit i = (edits index).target
  kept : ∀ i, (∀ index, i ∉ (edits index).indices bitmap.size) →
    shared.bitmap.bit i = bitmap.bit i
  failed : ∀ index fault, shared.caller index = .failed fault →
    ¬ (edits index).Fits bitmap.size ∧ fault = (edits index).fault bitmap.size
  goes_on : shared.Finished ∨ ∃ index next, shared.step index = some next

/-- What came of callers that have all stopped. Each bit of an edit is what the edit brings it to,
each other bit is what it was, and so the bitmap is the one of the edits that are made one after the
other. -/
structure Complete (bitmap : Bitmap) (edits : Fin callers → Edit) (shared : Shared callers) :
    Prop where
  brought : ∀ index, ∀ i ∈ (edits index).indices bitmap.size,
    shared.bitmap.bit i = (edits index).target
  kept : ∀ i, (∀ index, i ∉ (edits index).indices bitmap.size) →
    shared.bitmap.bit i = bitmap.bit i
  bitmap_eq : shared.bitmap = bitmap.inTurn (List.ofFn edits)
  failed_iff : ∀ index, (∃ fault, shared.caller index = .failed fault) ↔
    ¬ (edits index).Fits bitmap.size

theorem Sound.orderly (sound : shared.Sound bitmap edits) : shared.Orderly bitmap edits where
  size_eq := sound.size_eq
  brought index hstopped i hi :=
    (sound.brought index i hi).resolve_left (Caller.not_owes_of_hasStopped hstopped)
  kept := sound.kept
  failed index fault hfailed := by
    have hserves := sound.serves index
    rwa [hfailed] at hserves
  goes_on := shared.goes_on

/-- The bits say all there is to say of the bitmap. -/
theorem Sound.bitmap_eq (sound : shared.Sound bitmap edits) (apart : Apart bitmap.size edits)
    (finished : shared.Finished) : shared.bitmap = bitmap.inTurn (List.ofFn edits) := by
  refine ext_bit (sound.size_eq.trans (size_inTurn ..).symm) fun i => ?_
  by_cases hi : ∃ index, i ∈ (edits index).indices bitmap.size
  · obtain ⟨index, hi⟩ := hi
    have hapart : (List.ofFn edits).Pairwise fun a b =>
        Disjoint (a.indices bitmap.size) (b.indices bitmap.size) :=
      List.pairwise_ofFn.mpr fun a b hlt => apart (Fin.ne_of_lt hlt)
    rw [sound.orderly.brought index (finished index) i hi,
      bit_inTurn_of_mem hapart (List.mem_ofFn.mpr ⟨index, rfl⟩) hi]
  · have hnone := not_exists.mp hi
    rw [sound.kept i hnone, bit_inTurn_of_notMem]
    intro edit hedit
    obtain ⟨index, rfl⟩ := List.mem_ofFn.mp hedit
    exact hnone index

theorem Sound.complete (sound : shared.Sound bitmap edits) (apart : Apart bitmap.size edits)
    (finished : shared.Finished) : shared.Complete bitmap edits := by
  refine ⟨fun index => sound.orderly.brought index (finished index), sound.kept,
    sound.bitmap_eq apart finished, fun index => ?_⟩
  have hserves := sound.serves index
  have hstopped := finished index
  cases hcaller : shared.caller index with
  | waiting own =>
    rw [hcaller] at hstopped
    cases hstopped
  | underway steps =>
    rw [hcaller] at hserves
    simp [hserves.1]
  | failed fault =>
    rw [hcaller] at hserves
    simp [hserves.1]

end Shared

/-- Callers may share words, but no two of them edit the same bit. However their steps interleave, at
any moment the bits of the callers that are done are what their edits bring them to, and the bits of
no edit are what they were. All callers have stopped after no more steps than they have, and then the
bitmap is always the same: that of their edits one after the other. -/
theorem no_update_lost {callers : Nat} (bitmap : Bitmap) (edits : Fin callers → Edit)
    (apart : Shared.Apart bitmap.size edits) (schedule : List (Fin callers))
    (shared : Shared callers) (hrun : (Shared.start bitmap edits).run schedule = some shared) :
    shared.Orderly bitmap edits ∧
    schedule.length ≤ ∑ index, ((edits index).pieces.length + 1) ∧
    (shared.Finished → shared.Complete bitmap edits) := by
  obtain ⟨sound, hwork⟩ := (Shared.sound_start bitmap edits).run apart hrun
  exact ⟨sound.orderly, Nat.le_trans (Nat.le_add_right _ _) hwork, sound.complete apart⟩

/-- Three callers share the words of a bitmap whose first 60 bits are set. One sets bits of both
words, a second clears bits of the first word between its steps, and the edit of the third is one of
a bit that there is not. -/
theorem no_update_lost_of_three :
    let bitmap := (empty 130).fill 0 60
    let edits := ![Edit.range true 50 100, Edit.range false 0 50, Edit.bit true 130]
    Shared.Apart bitmap.size edits ∧
    ∃ shared, (Shared.start bitmap edits).run [0, 1, 0, 1, 2, 0] = some shared ∧
      shared.Finished ∧ shared.bitmap.ones = List.range' 50 50 ∧
      shared.Complete bitmap edits := by
  intro bitmap edits
  have apart : Shared.Apart bitmap.size edits := by
    have hall : ∀ a b, a ≠ b →
        Disjoint ((edits a).indices bitmap.size) ((edits b).indices bitmap.size) := by
      decide +kernel
    exact fun a b => hall a b
  have hany : (((Shared.start bitmap edits).run [0, 1, 0, 1, 2, 0]).any fun shared =>
      decide (shared.Finished ∧ shared.bitmap.ones = List.range' 50 50)) = true := by
    decide +kernel
  obtain ⟨shared, hrun, hend⟩ := (Option.any_eq_true ..).mp hany
  obtain ⟨finished, hones⟩ := of_decide_eq_true hend
  obtain ⟨-, -, hcomplete⟩ :=
    no_update_lost bitmap edits apart [0, 1, 0, 1, 2, 0] shared hrun
  exact ⟨apart, shared, hrun, finished, hones, hcomplete finished⟩

end Bitmap

end RegionBacking
