import RegionBacking.PageStore.Scripted
import RegionBacking.Proofs.Pretouch
import RegionBacking.Proofs.Stores
import Mathlib.Data.List.Basic
import Mathlib.Data.List.TakeWhile
import Mathlib.Tactic.Tauto
import Std.Data.TreeSet.Lemmas

/-!
# Scripted stores are lawful

A scripted store keeps the set of its committed pages. A legal commit adds a range to it, an
uncommit takes a range away, and a call that the script refuses leaves it as it is.
-/

namespace RegionBacking.ScriptedStore

variable {store : ScriptedStore} {start count : Nat}

/-- The addresses of the pages and the bytes of the reservation are words. -/
structure Sound (store : ScriptedStore) : Prop where
  reservedSize_lt : store.reservedSize < Word.limit
  address_lt : ∀ page, page < PageStore.pages store →
    store.base + page * store.pageSize < Word.limit

instance : StoreView ScriptedStore where
  backed store page := store.committed.contains page
  Sound := Sound
  Fits _ _ := True
  Willing store := store.failCommit = [] ∧ store.failUncommit = []

/-! ## Sets of pages -/

theorem contains_foldl_insert (pages : List Nat) (set : Std.TreeSet Nat) (page : Nat) :
    (pages.foldl (·.insert ·) set).contains page =
      (set.contains page || decide (page ∈ pages)) := by
  induction pages generalizing set with
  | nil => simp
  | cons first rest ih =>
    rw [List.foldl_cons, ih, Std.TreeSet.contains_insert]
    rw [Bool.eq_iff_iff]
    simp only [Bool.or_eq_true, beq_iff_eq, Std.LawfulEqCmp.compare_eq_iff_eq, List.mem_cons,
      decide_eq_true_eq, @eq_comm _ first]
    tauto

theorem contains_foldl_erase (pages : List Nat) (set : Std.TreeSet Nat) (page : Nat) :
    (pages.foldl (·.erase ·) set).contains page =
      (set.contains page && !decide (page ∈ pages)) := by
  induction pages generalizing set with
  | nil => simp
  | cons first rest ih =>
    rw [List.foldl_cons, ih, Std.TreeSet.contains_erase]
    rw [Bool.eq_iff_iff]
    simp only [Bool.and_eq_true, bne_iff_ne, ne_eq, Std.LawfulEqCmp.compare_eq_iff_eq,
      List.mem_cons, Bool.not_eq_true', decide_eq_false_iff_not, @eq_comm _ first]
    tauto

/-- The pages of a range none of which is committed are all fresh. -/
theorem freshPages_eq (unbacked : AllBacked store false start (start + count)) :
    store.freshPages start count = List.range' start count := by
  apply List.takeWhile_eq_self_iff.mpr
  intro page hpage
  have hrange := List.mem_range'_1.mp hpage
  have hpage : store.committed.contains page = false := unbacked page hrange.1 hrange.2
  rw [hpage]
  rfl

/-! ## Calls -/

/-- There is no page in an empty range, and none in an empty list. -/
theorem of_firstIn? {pages : List Nat} {page : Nat}
    (h : firstIn? pages start count = some page) : 0 < count ∧ pages ≠ [] := by
  obtain ⟨hpages, hrange⟩ := List.mem_filter.mp (List.min?_mem h)
  rw [decide_eq_true_eq] at hrange
  exact ⟨by omega, List.ne_nil_of_mem hpages⟩

/-- The store with more committed pages. -/
def acquired (store : ScriptedStore) (start count : Nat) : ScriptedStore :=
  { store with committed := (List.range' start count).foldl (·.insert ·) store.committed }

/-- The store with fewer committed pages. -/
def released (store : ScriptedStore) (start count : Nat) : ScriptedStore :=
  { store with committed := (List.range' start count).foldl (·.erase ·) store.committed }

theorem contains_acquired (page : Nat) :
    (store.acquired start count).committed.contains page =
      (store.committed.contains page || decide (start ≤ page ∧ page < start + count)) := by
  rw [acquired, contains_foldl_insert]
  simp only [List.mem_range'_1]

theorem contains_released (page : Nat) :
    (store.released start count).committed.contains page =
      (store.committed.contains page && !decide (start ≤ page ∧ page < start + count)) := by
  rw [released, contains_foldl_erase]
  simp only [List.mem_range'_1]

/-- A commit of pages that are not committed is refused by the script or comes to its end. -/
theorem commit_eq (unbacked : AllBacked store false start (start + count)) :
    commit start count store =
      match firstIn? store.failCommit start count with
      | some page => ⟨.error (.error (.outOfMemory (count * store.pageSize) page)), store, []⟩
      | none => ⟨.ok (store.zeroFilled && (firstIn? store.dirtyPages start count).isNone),
          store.acquired start count, []⟩ := by
  rw [commit, Op.get_bind]
  cases firstIn? store.failCommit start count with
  | some page => rfl
  | none =>
    -- No page of the range is committed, so none of them ends the run of fresh pages early.
    have hacquire : acquire start count store = ⟨.ok (), store.acquired start count, []⟩ := by
      rw [acquire, Op.get_bind, Op.modify_bind, freshPages_eq unbacked]
      simp [acquired]
    exact Op.bind_eq_after hacquire

theorem uncommit_eq (store : ScriptedStore) (start count : Nat) :
    uncommit start count store =
      match firstIn? store.failUncommit start count with
      | some page => ⟨.error (.error (.uncommit (.page page))), store, []⟩
      | none => ⟨.ok (), store.released start count, []⟩ := by
  rw [uncommit, Op.get_bind]
  cases firstIn? store.failUncommit start count <;> rfl

theorem Sound.of_committed {after : ScriptedStore} (sound : store.Sound)
    (hreserved : after.reservedSize = store.reservedSize) (hpage : after.pageSize = store.pageSize)
    (hbase : after.base = store.base) : after.Sound where
  reservedSize_lt := hreserved ▸ sound.reservedSize_lt
  address_lt page h := by
    have hpages : PageStore.pages after = PageStore.pages store :=
      congrArg₂ (· / ·) hreserved hpage
    rw [hbase, hpage]
    exact sound.address_lt page (hpages ▸ h)

theorem acquired_acquired (sound : store.Sound) :
    Acquired store (store.acquired start count) start (start + count) where
  sound := sound.of_committed rfl rfl rfl
  geometry := ⟨rfl, rfl, rfl⟩
  fits_iff _ := .rfl
  backed_eq := contains_acquired
  addressed _ hstop := by
    have hpages : (start + count) * store.pageSize ≤ store.reservedSize :=
      Nat.le_trans (Nat.mul_le_mul_right _ hstop) (Nat.div_mul_le_self _ _)
    have hreserved := sound.reservedSize_lt
    refine ⟨Nat.lt_of_le_of_lt hpages hreserved, ?_⟩
    intro page hfirst hlast
    have hmul : page * store.pageSize < Word.limit :=
      Nat.lt_of_le_of_lt (Nat.le_trans (Nat.mul_le_mul_right _ (Nat.le_of_lt hlast)) hpages)
        hreserved
    have haddress := sound.address_lt page (Nat.lt_of_lt_of_le hlast hstop)
    refine ⟨store.base + page * store.pageSize, ?_⟩
    show store.pageStart page = _
    rw [pageStart, Word.mul_eq_ok_iff.mpr ⟨hmul, rfl⟩]
    exact Word.add_eq_ok_iff.mpr ⟨haddress, rfl⟩

theorem released_released (sound : store.Sound) :
    Released store (store.released start count) start (start + count) where
  sound := sound.of_committed rfl rfl rfl
  geometry := ⟨rfl, rfl, rfl⟩
  fits_iff _ := .rfl
  backed_eq := contains_released

instance : LawfulStore ScriptedStore where
  fits_of_backed _ _ _ _ := trivial
  commit_spec store start count sound unbacked := by
    have hrun := commit_eq unbacked
    cases hscript : firstIn? store.failCommit start count with
    | some page =>
      rw [hscript] at hrun
      exact ⟨_, _, _, hrun, .nil, rfl, .refused _ fun h => (of_firstIn? hscript).2 h.1⟩
    | none =>
      rw [hscript] at hrun
      exact ⟨_, _, _, hrun, .nil, acquired_acquired sound⟩
  uncommit_spec store start count sound _ := by
    have hrun := uncommit_eq store start count
    cases hscript : firstIn? store.failUncommit start count with
    | some page =>
      rw [hscript] at hrun
      obtain ⟨hpos, hpages⟩ := of_firstIn? hscript
      exact ⟨_, _, _, hrun, .nil, rfl, hpos, .refused _ fun h => hpages h.2⟩
    | none =>
      rw [hscript] at hrun
      exact ⟨_, _, _, hrun, .nil, released_released sound⟩
  pretouch_spec store start count pretoucher sound := by
    obtain ⟨trace, hrecords, hrun⟩ := pretoucher.run_eq Refusal start count store.pageSize
      (fun _ => none) (fun store _ => store) store
    rw [List.foldl_fixed] at hrun
    exact ⟨_, _, trace, hrun, .of_records hrecords, .refl sound⟩
  pretouch_ok store _ _ _ _ _ hlimit _ := Pretoucher.run_ok (fun _ _ _ => rfl) hlimit _ store

/-! ## Between calls -/

/-- What can become of a scripted store by itself: it gets another script. -/
inductive Rescripted (store : ScriptedStore) : ScriptedStore → Prop where
  | intro (zeroFilled : Bool) (dirtyPages failCommit failUncommit : List Nat) :
    Rescripted store { store with zeroFilled, dirtyPages, failCommit, failUncommit }

theorem harmless_rescripted : Harmless Rescripted := by
  intro store after rescripted sound
  obtain ⟨zeroFilled, dirtyPages, failCommit, failUncommit⟩ := rescripted
  exact
    { sound := sound.of_committed rfl rfl rfl
      geometry := ⟨rfl, rfl, rfl⟩
      fits_iff := fun _ => .rfl
      backed_eq := fun _ => rfl }

end RegionBacking.ScriptedStore
