import RegionBacking.Proofs.Mapper.Usage

/-!
# What the steps of a batch leave as it is

A step of a batch changes one or two fields of a mapper, and which these are does not depend on how
it ends. So what is seen of a mapper is kept by every step that changes only fields that are not
seen. The steps that call the store, place pages, count or report change nothing that a mapper
knows of its regions (`Aside`), and a whole call leaves all as it was that belongs neither to the
books nor to the store (`Steady`). None of this asks for a store that is lawful.
-/

namespace RegionBacking.Mapper

variable {σ γ : Type} {seen : Mapper σ → γ}

/-- What is seen of a mapper has nothing to do with its store, its nodes and its counters. -/
structure Aside (seen : Mapper σ → γ) : Prop where
  store_eq : ∀ (mapper : Mapper σ) (store : σ), seen (mapper.withStore store) = seen mapper
  nodes_eq : ∀ (mapper : Mapper σ) (nodes : Nodes), seen (mapper.withNodes nodes) = seen mapper
  activity_eq : ∀ (mapper : Mapper σ) (activity : Activity),
    seen (mapper.withActivity activity) = seen mapper

/-- Nor has it to do with the bits of the regions and the references of the pages. -/
structure Steady (seen : Mapper σ → γ) : Prop extends Aside seen where
  bits_eq : ∀ (mapper : Mapper σ) (committed : Bitmap),
    seen (mapper.withBits committed) = seen mapper
  references_eq : ∀ (mapper : Mapper σ) (references : GranuleTable),
    seen (mapper.withStrategy (mapper.strategy.withReferences references)) = seen mapper

/-- Nobody touches the listener. -/
theorem steady_listener : Steady (listener : Mapper σ → Listener) where
  store_eq _ _ := rfl
  nodes_eq _ _ := rfl
  activity_eq _ _ := rfl
  bits_eq _ _ := rfl
  references_eq _ _ := rfl

/-- Nobody changes the kind of the memory. -/
theorem steady_memoryKind : Steady (memoryKind : Mapper σ → MemoryKind) where
  store_eq _ _ := rfl
  nodes_eq _ _ := rfl
  activity_eq _ _ := rfl
  bits_eq _ _ := rfl
  references_eq _ _ := rfl

/-! ## Steps that change nothing -/

theorem readReferences_keeps (page : Nat) :
    (readReferences page : Op Refusal (Mapper σ) Nat).Keeps seen := by
  refine Op.bind_keeps (fun _ => rfl) fun mapper => ?_
  split
  · exact fun _ => rfl
  · exact Op.checked_keeps _

theorem notify_keeps (start count : Nat) (zeroFilled : Bool) :
    (notify start count zeroFilled : Op Refusal (Mapper σ) Unit).Keeps seen := by
  intro mapper
  rw [notify_run]

theorem checkRegions_keeps (start count : Nat) :
    (checkRegions start count : Op Refusal (Mapper σ) Nat).Keeps seen :=
  Op.bind_keeps (fun _ => rfl) fun _ => Op.bind_keeps (Op.require_keeps _ _) fun _ _ => rfl

/-! ## Steps aside from the regions -/

section aside

variable (aside : Aside seen)

include aside

theorem onStore_keeps {α : Type} (call : StoreCall) (op : Op Refusal σ α) :
    (onStore call op).Keeps seen := by
  intro mapper
  rw [onStore_run]
  exact aside.store_eq mapper _

theorem count_keeps (change : Activity → Activity) :
    (count change : Op Refusal (Mapper σ) Unit).Keeps seen :=
  fun mapper => aside.activity_eq mapper _

theorem reportFailure_keeps (start regions : Nat) (refusal : Refusal) :
    (reportFailure start regions refusal : Op Refusal (Mapper σ) Backing).Keeps seen :=
  Op.bind_keeps (fun _ => rfl) fun _ => Op.bind_keeps (count_keeps aside _) fun _ =>
    Op.bind_keeps (fun _ => rfl) fun _ _ => rfl

theorem reportCommit_keeps (start regions : Nat) (backing : Backing) :
    (reportCommit start regions backing : Op Refusal (Mapper σ) Unit).Keeps seen := by
  intro mapper
  obtain ⟨trace, hrun, -⟩ := reportCommit_run start regions backing mapper
  rw [hrun]
  exact aside.activity_eq mapper _

variable [PageStore σ]

theorem pretouchPages_keeps (start count : Nat) (pretoucher : Option Pretoucher) :
    (pretouchPages start count pretoucher : Op Refusal (Mapper σ) Unit).Keeps seen := by
  refine Op.bind_keeps (fun _ => rfl) fun mapper => ?_
  split
  · exact fun _ => rfl
  · split
    · exact Op.bind_keeps (onStore_keeps aside _ _) fun _ =>
        Op.bind_keeps (fun mapper => aside.activity_eq mapper _) fun _ _ => rfl
    · exact fun _ => rfl

theorem placePages_keeps (start count region : Nat) :
    (placePages start count region : Op Refusal (Mapper σ) Unit).Keeps seen := by
  refine Op.bind_keeps (fun _ => rfl) fun mapper => ?_
  split
  · exact Op.bind_keeps (Op.checked_keeps _) fun _ => Op.bind_keeps (Op.checked_keeps _) fun _ =>
      Op.bind_keeps (fun _ => rfl) fun _ mapper => aside.nodes_eq mapper _
  · exact fun _ => rfl

theorem acquirePage_keeps (page region : Nat) (progress : Progress) :
    (acquirePage page region progress : Op Refusal (Mapper σ) Progress).Keeps seen :=
  Op.bind_keeps (onStore_keeps aside _ _) fun _ => Op.bind_keeps (placePages_keeps aside _ _ _)
    fun _ => Op.bind_keeps (fun _ => rfl) fun _ => Op.bind_keeps (fun _ => rfl) fun _ _ => rfl

theorem pretouchFresh_keeps (fresh : List Nat) (pretoucher : Option Pretoucher) :
    (pretouchFresh fresh pretoucher : Op Refusal (Mapper σ) Unit).Keeps seen := by
  unfold pretouchFresh
  split
  · exact pretouchPages_keeps aside _ _ _
  · exact fun _ => rfl

theorem placeRegion_keeps (pagesPerRegion region : Nat) :
    (placeRegion pagesPerRegion region : Op Refusal (Mapper σ) Unit).Keeps seen :=
  Op.bind_keeps (Op.checked_keeps _) fun _ => placePages_keeps aside _ _ _

theorem releasePage_keeps (page region : Nat) :
    (releasePage page region : Op Refusal (Mapper σ) Unit).Keeps seen :=
  Op.bind_keeps (onStore_keeps aside _ _) fun _ => Op.bind_keeps (fun _ => rfl) fun _ _ => rfl

end aside

/-! ## Steps that change the books -/

section steady

variable (steady : Steady seen)

include steady

theorem changeBits_keeps (steps : Bitmap → Except Fault (List WordStep)) :
    (changeBits steps : Op Refusal (Mapper σ) Unit).Keeps seen :=
  Op.bind_keeps (fun _ => rfl) fun _ => Op.bind_keeps (Op.checked_keeps _) fun _ mapper =>
    steady.bits_eq mapper _

theorem writeReferences_keeps (page count : Nat) :
    (writeReferences page count : Op Refusal (Mapper σ) Unit).Keeps seen := by
  refine Op.bind_keeps (fun _ => rfl) fun mapper => ?_
  split
  · exact fun _ => rfl
  · exact Op.bind_keeps (Op.checked_keeps _) fun _ mapper => steady.references_eq mapper _

variable [PageStore σ]

theorem commitRegion_keeps (regionsPerPage : Nat) (progress : Progress) (region : Nat) :
    (commitRegion regionsPerPage progress region :
      Op Refusal (Mapper σ) Progress).Keeps seen := by
  refine Op.bind_keeps (readReferences_keeps _) fun references => ?_
  have hbits : ∀ progress : Progress, ∀ _ : Unit, (do
      changeBits fun bits => bits.setBitSteps region
      pure progress : Op Refusal (Mapper σ) Progress).Keeps seen :=
    fun _ _ => Op.bind_keeps (changeBits_keeps steady _) fun _ _ => rfl
  have hcounted : ∀ progress : Progress, (do
      if references + 1 < entryLimit then writeReferences (region / regionsPerPage) (references + 1)
      else Op.fail .addOverflow
      changeBits fun bits => bits.setBitSteps region
      pure progress : Op Refusal (Mapper σ) Progress).Keeps seen := by
    intro progress
    simp only []
    split
    · exact Op.bind_keeps (writeReferences_keeps steady _ _) (hbits progress)
    · exact Op.bind_keeps (fun _ => rfl) (hbits progress)
  simp only []
  split
  · exact Op.bind_keeps (acquirePage_keeps steady.toAside _ _ _) hcounted
  · split <;> exact Op.bind_keeps (fun _ => rfl) hcounted

theorem backRegions_keeps (start count : Nat) (pretoucher : Option Pretoucher) :
    (backRegions start count pretoucher : Op Refusal (Mapper σ) Backing).Keeps seen := by
  refine Op.bind_keeps (fun _ => rfl) fun mapper => ?_
  split
  · exact Op.bind_keeps (Op.checked_keeps _) fun _ => Op.bind_keeps (Op.checked_keeps _) fun _ =>
      Op.bind_keeps (onStore_keeps steady.toAside _ _) fun _ =>
      Op.bind_keeps (Op.fold_keeps (fun _ => placeRegion_keeps steady.toAside _) _ _) fun _ =>
      Op.bind_keeps (pretouchPages_keeps steady.toAside _ _ _) fun _ =>
      Op.bind_keeps (changeBits_keeps steady _) fun _ => Op.bind_keeps (fun _ => rfl) fun _ _ => rfl
  · exact Op.bind_keeps (Op.fold_keeps (commitRegion_keeps steady _) _ _) fun _ =>
      Op.bind_keeps (pretouchFresh_keeps steady.toAside _ _) fun _ =>
      Op.bind_keeps (fun _ => rfl) fun _ _ => rfl

theorem uncommitRegion_keeps (regionsPerPage released region : Nat) :
    (uncommitRegion regionsPerPage released region : Op Refusal (Mapper σ) Nat).Keeps seen := by
  refine Op.bind_keeps (readReferences_keeps _) fun references =>
    Op.bind_keeps (Op.require_keeps _ _) fun _ => ?_
  have hcounted : ∀ given : Nat, ∀ _ : Unit, (do
      writeReferences (region / regionsPerPage) (references - 1)
      changeBits fun bits => bits.clearBitSteps region
      pure given : Op Refusal (Mapper σ) Nat).Keeps seen :=
    fun _ _ => Op.bind_keeps (writeReferences_keeps steady _ _) fun _ =>
      Op.bind_keeps (changeBits_keeps steady _) fun _ _ => rfl
  simp only []
  split
  · exact Op.bind_keeps (releasePage_keeps steady.toAside _ _) (hcounted _)
  · exact hcounted _ ()

theorem unbackRegions_keeps (start count : Nat) :
    (unbackRegions start count : Op Refusal (Mapper σ) Nat).Keeps seen := by
  refine Op.bind_keeps (fun _ => rfl) fun mapper => ?_
  split
  · exact Op.bind_keeps (Op.checked_keeps _) fun _ => Op.bind_keeps (Op.checked_keeps _) fun _ =>
      Op.bind_keeps (onStore_keeps steady.toAside _ _) fun _ =>
      Op.bind_keeps (changeBits_keeps steady _) fun _ _ => rfl
  · exact Op.fold_keeps (uncommitRegion_keeps steady _) _ _

theorem commitRegions_keeps (start regions : Nat) (pretoucher : Option Pretoucher) :
    (commitRegions start regions pretoucher : Op Refusal (Mapper σ) Unit).Keeps seen := by
  refine Op.bind_keeps (checkRegions_keeps _ _) fun _ => Op.bind_keeps (fun _ => rfl) fun _ =>
    Op.bind_keeps (Op.checked_keeps _) fun _ => Op.bind_keeps (Op.require_keeps _ _) fun _ => ?_
  split
  · exact Op.bind_keeps (count_keeps steady.toAside _) fun _ => notify_keeps _ _ _
  · exact Op.bind_keeps (Op.recover_keeps (backRegions_keeps steady _ _ _)
      (reportFailure_keeps steady.toAside _ _)) fun _ =>
      Op.bind_keeps (reportCommit_keeps steady.toAside _ _ _) fun _ => notify_keeps _ _ _

theorem uncommitRegions_keeps (start regions : Nat) :
    (uncommitRegions start regions : Op Refusal (Mapper σ) Unit).Keeps seen :=
  Op.bind_keeps (checkRegions_keeps _ _) fun _ => Op.bind_keeps (fun _ => rfl) fun _ =>
    Op.bind_keeps (Op.checked_keeps _) fun _ => Op.bind_keeps (Op.require_keeps _ _) fun _ =>
    Op.bind_keeps (unbackRegions_keeps steady _ _) fun _ =>
    Op.bind_keeps (count_keeps steady.toAside _) fun _ => Op.bind_keeps (fun _ => rfl) fun _ _ => rfl

/-- A call keeps what has nothing to do with the books and the store, however it ends. -/
theorem Call.run_keeps (call : Call) : (call.run : Op Refusal (Mapper σ) Unit).Keeps seen := by
  cases call with
  | commit start count pretoucher => exact commitRegions_keeps steady start count pretoucher
  | uncommit start count => exact uncommitRegions_keeps steady start count

end steady

end RegionBacking.Mapper
