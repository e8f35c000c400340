import RegionBacking.Proofs.Mapper.SharedTable

/-!
# Placements and nodes

A mapper changes its nodes only by routing placements to them, and it shows each placement. So what
has become of the nodes is told from the placements in the trace, over any store that shows none
itself and however a call ends (`Call.nodes_eq`).
-/

namespace RegionBacking

/-! ## What effects do to nodes -/

namespace Nodes

/-- The nodes after an effect. -/
def hear (nodes : Nodes) : Effect → Nodes
  | .placement placement => nodes.request placement
  | _ => nodes

/-- Only placements are routed. -/
theorem foldl_hear (trace : List Effect) (nodes : Nodes) :
    trace.foldl hear nodes = (Effect.placements trace).foldl request nodes := by
  induction trace generalizing nodes with
  | nil => rfl
  | cons effect rest ih =>
    rw [List.foldl_cons, ih]
    cases effect <;> rfl

end Nodes

namespace Mapper

variable {σ : Type}

/-- The nodes of the mapper are those that the effects of an operation make of them. -/
def Routes {ε α : Type} (op : Op ε (Mapper σ) α) : Prop := op.Replays nodes Nodes.hear

/-! ## Steps that place nothing -/

theorem readReferences_routes (page : Nat) :
    Routes (readReferences page : Op Refusal (Mapper σ) Nat) := by
  refine Op.bind_replays (fun _ => rfl) fun mapper => ?_
  split
  · exact fun _ => rfl
  · exact Op.checked_replays _

theorem writeReferences_routes (page count : Nat) :
    Routes (writeReferences page count : Op Refusal (Mapper σ) Unit) := by
  refine Op.bind_replays (fun _ => rfl) fun mapper => ?_
  split
  · exact fun _ => rfl
  · exact Op.bind_replays (Op.checked_replays _) fun _ _ => rfl

theorem changeBits_routes (steps : Bitmap → Except Fault (List WordStep)) :
    Routes (changeBits steps : Op Refusal (Mapper σ) Unit) :=
  Op.bind_replays (fun _ => rfl) fun _ => Op.bind_replays (Op.checked_replays _) fun _ _ => rfl

theorem reportFailure_routes (start regions : Nat) (refusal : Refusal) :
    Routes (reportFailure start regions refusal : Op Refusal (Mapper σ) Backing) :=
  Op.bind_replays (fun _ => rfl) fun _ => Op.bind_replays (fun _ => rfl) fun _ =>
    Op.bind_replays (fun _ => rfl) fun _ _ => rfl

theorem reportCommit_routes (start regions : Nat) (backing : Backing) :
    Routes (reportCommit start regions backing : Op Refusal (Mapper σ) Unit) := by
  intro mapper
  obtain ⟨trace, hrun, -, hplacements, -⟩ := reportCommit_run start regions backing mapper
  rw [hrun, Nodes.foldl_hear, hplacements]
  rfl

theorem notify_routes (start count : Nat) (zeroFilled : Bool) :
    Routes (notify start count zeroFilled : Op Refusal (Mapper σ) Unit) := by
  intro mapper
  rw [notify_run, Nodes.foldl_hear, (told_entries mapper start count zeroFilled).2]
  rfl

theorem checkRegions_routes (start count : Nat) :
    Routes (checkRegions start count : Op Refusal (Mapper σ) Nat) :=
  Op.bind_replays (fun _ => rfl) fun _ => Op.bind_replays (Op.require_replays _ _) fun _ _ => rfl

variable [PageStore σ]

omit [PageStore σ] in
/-- A call of the store, which shows no placement. -/
theorem onStore_routes {α : Type} (call : StoreCall) {op : Op Refusal σ α}
    (quiet : ∀ store, Quiet (op store).trace) : Routes (onStore call op) := by
  intro mapper
  rw [onStore_run, Nodes.foldl_hear, ((quiet mapper.store).callsOnly call).placements_eq]
  rfl

variable [QuietStore σ]

theorem commitPages_routes (start count : Nat) :
    Routes (commitPages start count : Op Refusal (Mapper σ) Bool) :=
  onStore_routes _ (QuietStore.commit_quiet start count)

theorem uncommitPages_routes (start count : Nat) :
    Routes (uncommitPages start count : Op Refusal (Mapper σ) Unit) :=
  onStore_routes _ (QuietStore.uncommit_quiet start count)

theorem pretouchPages_routes (start count : Nat) (pretoucher : Option Pretoucher) :
    Routes (pretouchPages start count pretoucher : Op Refusal (Mapper σ) Unit) := by
  refine Op.bind_replays (fun _ => rfl) fun mapper => ?_
  split
  · exact fun _ => rfl
  · split
    · exact Op.bind_replays (onStore_routes _ (QuietStore.pretouch_quiet start count _)) fun _ =>
        Op.bind_replays (fun _ => rfl) fun _ _ => rfl
    · exact fun _ => rfl

theorem pretouchFresh_routes (fresh : List Nat) (pretoucher : Option Pretoucher) :
    Routes (pretouchFresh fresh pretoucher : Op Refusal (Mapper σ) Unit) := by
  unfold pretouchFresh
  split
  · exact pretouchPages_routes _ _ _
  · exact fun _ => rfl

/-! ## Placing -/

omit [QuietStore σ] in
theorem placePages_routes (start count region : Nat) :
    Routes (placePages start count region : Op Refusal (Mapper σ) Unit) := by
  intro mapper
  unfold placePages
  rw [Op.get_bind]
  split
  · -- The placement is shown and routed in the last two steps.
    cases Word.mul (PageStore.pageSize mapper.store) count with
    | error fault => rfl
    | ok size =>
      cases PageStore.pageStart mapper.store start with
      | error fault => rfl
      | ok address => rfl
  · rfl

omit [QuietStore σ] in
theorem placeRegion_routes (pagesPerRegion region : Nat) :
    Routes (placeRegion pagesPerRegion region : Op Refusal (Mapper σ) Unit) :=
  Op.bind_replays (Op.checked_replays _) fun _ => placePages_routes _ _ _

theorem acquirePage_routes (page region : Nat) (progress : Progress) :
    Routes (acquirePage page region progress : Op Refusal (Mapper σ) Progress) :=
  Op.bind_replays (commitPages_routes _ _) fun _ => Op.bind_replays (placePages_routes _ _ _)
    fun _ => Op.bind_replays (fun _ => rfl) fun _ => Op.bind_replays (fun _ => rfl) fun _ _ => rfl

theorem commitRegion_routes (regionsPerPage : Nat) (progress : Progress) (region : Nat) :
    Routes (commitRegion regionsPerPage progress region : Op Refusal (Mapper σ) Progress) := by
  refine Op.bind_replays (readReferences_routes _) fun references => ?_
  have hbits : ∀ progress : Progress, ∀ _ : Unit, Routes (do
      changeBits fun bits => bits.setBitSteps region
      pure progress : Op Refusal (Mapper σ) Progress) :=
    fun _ _ => Op.bind_replays (changeBits_routes _) fun _ _ => rfl
  have hcounted : ∀ progress : Progress, Routes (do
      if references + 1 < entryLimit then writeReferences (region / regionsPerPage) (references + 1)
      else Op.fail .addOverflow
      changeBits fun bits => bits.setBitSteps region
      pure progress : Op Refusal (Mapper σ) Progress) := by
    intro progress
    simp only []
    split
    · exact Op.bind_replays (writeReferences_routes _ _) (hbits progress)
    · exact Op.bind_replays (fun _ => rfl) (hbits progress)
  simp only []
  split
  · exact Op.bind_replays (acquirePage_routes _ _ _) hcounted
  · split <;> exact Op.bind_replays (fun _ => rfl) hcounted

/-! ## Batches and calls -/

theorem backRegions_routes (start count : Nat) (pretoucher : Option Pretoucher) :
    Routes (backRegions start count pretoucher : Op Refusal (Mapper σ) Backing) := by
  refine Op.bind_replays (fun _ => rfl) fun mapper => ?_
  split
  · exact Op.bind_replays (Op.checked_replays _) fun _ => Op.bind_replays (Op.checked_replays _)
      fun _ => Op.bind_replays (commitPages_routes _ _) fun _ =>
      Op.bind_replays (Op.fold_replays (fun _ => placeRegion_routes _) _ _) fun _ =>
      Op.bind_replays (pretouchPages_routes _ _ _) fun _ =>
      Op.bind_replays (changeBits_routes _) fun _ => Op.bind_replays (fun _ => rfl) fun _ _ => rfl
  · exact Op.bind_replays (Op.fold_replays (commitRegion_routes _) _ _) fun _ =>
      Op.bind_replays (pretouchFresh_routes _ _) fun _ =>
      Op.bind_replays (fun _ => rfl) fun _ _ => rfl

theorem uncommitRegion_routes (regionsPerPage released region : Nat) :
    Routes (uncommitRegion regionsPerPage released region : Op Refusal (Mapper σ) Nat) := by
  refine Op.bind_replays (readReferences_routes _) fun references =>
    Op.bind_replays (Op.require_replays _ _) fun _ => ?_
  have hcounted : ∀ given : Nat, ∀ _ : Unit, Routes (do
      writeReferences (region / regionsPerPage) (references - 1)
      changeBits fun bits => bits.clearBitSteps region
      pure given : Op Refusal (Mapper σ) Nat) :=
    fun _ _ => Op.bind_replays (writeReferences_routes _ _) fun _ =>
      Op.bind_replays (changeBits_routes _) fun _ _ => rfl
  simp only []
  split
  · exact Op.bind_replays (Op.bind_replays (uncommitPages_routes _ _) fun _ =>
      Op.bind_replays (fun _ => rfl) fun _ _ => rfl) (hcounted _)
  · exact hcounted _ ()

theorem unbackRegions_routes (start count : Nat) :
    Routes (unbackRegions start count : Op Refusal (Mapper σ) Nat) := by
  refine Op.bind_replays (fun _ => rfl) fun mapper => ?_
  split
  · exact Op.bind_replays (Op.checked_replays _) fun _ => Op.bind_replays (Op.checked_replays _)
      fun _ => Op.bind_replays (uncommitPages_routes _ _) fun _ =>
      Op.bind_replays (changeBits_routes _) fun _ _ => rfl
  · exact Op.fold_replays (uncommitRegion_routes _) _ _

theorem commitRegions_routes (start regions : Nat) (pretoucher : Option Pretoucher) :
    Routes (commitRegions start regions pretoucher : Op Refusal (Mapper σ) Unit) := by
  refine Op.bind_replays (checkRegions_routes _ _) fun _ => Op.bind_replays (fun _ => rfl) fun _ =>
    Op.bind_replays (Op.checked_replays _) fun _ => Op.bind_replays (Op.require_replays _ _)
    fun _ => ?_
  split
  · exact Op.bind_replays (fun _ => rfl) fun _ => notify_routes _ _ _
  · exact Op.bind_replays (Op.recover_replays (backRegions_routes _ _ _)
      (reportFailure_routes _ _)) fun _ =>
      Op.bind_replays (reportCommit_routes _ _ _) fun _ => notify_routes _ _ _

theorem uncommitRegions_routes (start regions : Nat) :
    Routes (uncommitRegions start regions : Op Refusal (Mapper σ) Unit) :=
  Op.bind_replays (checkRegions_routes _ _) fun _ => Op.bind_replays (fun _ => rfl) fun _ =>
    Op.bind_replays (Op.checked_replays _) fun _ => Op.bind_replays (Op.require_replays _ _) fun _ =>
    Op.bind_replays (unbackRegions_routes _ _) fun _ => Op.bind_replays (fun _ => rfl) fun _ =>
    Op.bind_replays (fun _ => rfl) fun _ _ => rfl

/-- After a call, however it ends, the nodes are those that its placements make of them. -/
theorem Call.nodes_eq (call : Call) (mapper : Mapper σ) : (call.run mapper).state.nodes =
    (Effect.placements (call.run mapper).trace).foldl Nodes.request mapper.nodes := by
  rw [← Nodes.foldl_hear]
  cases call with
  | commit start count pretoucher => exact commitRegions_routes start count pretoucher mapper
  | uncommit start count => exact uncommitRegions_routes start count mapper

end Mapper

end RegionBacking
