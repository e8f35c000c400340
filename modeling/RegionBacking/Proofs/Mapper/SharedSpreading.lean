import RegionBacking.Proofs.Mapper.Completed
import RegionBacking.Proofs.Mapper.Spreading

/-!
# Pages dealt out to nodes

Where regions share pages, a page goes to the node of its first region. So consecutive pages skip
nodes: they go round a circle of those nodes whose places are multiples of the common divisor of the
regions of a page and the nodes (`Nodes.dealtPages_eq`, `Nodes.dealtPages_eq_zero`). Pages are dealt
out evenly just if this divisor is one, or there are no more pages than nodes on the circle
(`Nodes.dealtPages_le_iff`).
-/

namespace RegionBacking

/-- The multiples of a number that have a certain residue are those of the numbers of another
residue, if any multiple has it. -/
theorem Word.exists_residue {modulus residue : Nat} (share : Nat) (hresidue : residue < modulus)
    (h : share.gcd modulus ∣ residue) : ∃ other < modulus / share.gcd modulus, ∀ index,
      index * share % modulus = residue ↔ index % (modulus / share.gcd modulus) = other := by
  have hpos : 0 < share.gcd modulus := Nat.gcd_pos_of_pos_right share (Nat.zero_lt_of_lt hresidue)
  obtain ⟨step, turns, hcoprime, hshare, hmodulus⟩ := Nat.exists_coprime share modulus
  generalize share.gcd modulus = divisor at hpos hshare hmodulus h ⊢
  subst hshare hmodulus
  obtain ⟨turn, rfl⟩ := h
  rw [Nat.mul_comm turns] at hresidue ⊢
  have hturn : turn < turns := Nat.lt_of_mul_lt_mul_left hresidue
  rw [Nat.mul_div_cancel_left turns hpos]
  -- Divided by the common divisor, the factor has an inverse.
  obtain ⟨other, hother, hturn'⟩ :=
    Nat.exists_mul_mod_eq_of_coprime turn hcoprime (Nat.ne_of_gt (Nat.zero_lt_of_lt hturn))
  refine ⟨other, hother, fun index => ?_⟩
  rw [show index * (step * divisor) = divisor * (index * step) by ac_rfl, Nat.mul_mod_mul_left,
    Nat.mul_right_inj (Nat.ne_of_gt hpos), ← Nat.mod_eq_of_lt hturn, ← hturn',
    ← Nat.mod_eq_of_lt hother, Nat.mul_comm step, Nat.mod_mul_mod]
  constructor
  · exact Nat.ModEq.cancel_right_of_coprime (Nat.coprime_comm.mp hcoprime)
  · exact Nat.ModEq.mul_right step

namespace Nodes

variable {nodes : Nodes} {share first count place : Nat}

/-! ## Shares -/

/-- The number of those of the pages `[first, first + count)`, with `share` regions each, whose first
region prefers the node at a place. -/
def dealtPages (nodes : Nodes) (share first count place : Nat) : Nat :=
  ((List.range' first count).filter fun page => nodes.preferred (page * share) = place).length

/-- The number of nodes that are preferred by the first region of some page, if each page has `share`
regions. -/
def circle (nodes : Nodes) (share : Nat) : Nat := nodes.count / share.gcd nodes.count

theorem circle_pos (nodes : Nodes) (share : Nat) : 0 < nodes.circle share :=
  Nat.div_pos (Nat.le_of_dvd nodes.nonempty (Nat.gcd_dvd_right share nodes.count))
    (Nat.gcd_pos_of_pos_right share nodes.nonempty)

theorem dealtPages_eq_count (nodes : Nodes) (share first count place : Nat) :
    nodes.dealtPages share first count place =
      Nat.count (fun index => (first + index) * share % nodes.count = place) count := by
  induction count with
  | zero => rfl
  | succ count ih =>
    rw [Nat.count_succ, ← ih, dealtPages, dealtPages, List.range'_1_concat, List.filter_append,
      List.length_append]
    by_cases hplace : (first + count) * share % nodes.count = place <;> simp [preferred, hplace]

/-- No page has its first region on a node that is not on the circle. -/
theorem dealtPages_eq_zero (first count : Nat) (h : ¬ share.gcd nodes.count ∣ place) :
    nodes.dealtPages share first count place = 0 := by
  rw [dealtPages, List.length_eq_zero_iff, List.filter_eq_nil_iff]
  intro page _
  rw [decide_eq_true_eq]
  rintro rfl
  apply h
  exact (Nat.dvd_mod_iff (Nat.gcd_dvd_right share nodes.count)).mpr
    (Nat.dvd_mul_left_of_dvd (Nat.gcd_dvd_left share nodes.count) page)

/-- Each node of the circle gets its share of the pages, rounded down or up. -/
theorem dealtPages_eq (first count : Nat) (hplace : place < nodes.count)
    (h : share.gcd nodes.count ∣ place) :
    nodes.dealtPages share first count place = count / nodes.circle share ∨
      nodes.dealtPages share first count place = Word.divCeil count (nodes.circle share) := by
  obtain ⟨residue, hresidue, hiff⟩ := Word.exists_residue share hplace h
  rw [dealtPages_eq_count]
  simp only [hiff]
  exact Word.count_residue first count hresidue

/-- The shares of two nodes of the circle differ by at most one. -/
theorem dealtPages_le (first count : Nat) {other : Nat} (hplace : place < nodes.count)
    (hdvd : share.gcd nodes.count ∣ place) (hother : other < nodes.count)
    (hdvd' : share.gcd nodes.count ∣ other) : nodes.dealtPages share first count place ≤
      nodes.dealtPages share first count other + 1 := by
  obtain ⟨hdown, hup⟩ := Word.divCeil_bounds count (nodes.circle_pos share)
  rcases dealtPages_eq first count hplace hdvd with hplace | hplace <;>
    rcases dealtPages_eq first count hother hdvd' with hother | hother <;> omega

/-- The node of a page gets another page when the pages have gone round the circle. -/
theorem two_le_dealtPages (first : Nat) (h : nodes.circle share < count) :
    2 ≤ nodes.dealtPages share first count (first * share % nodes.count) := by
  have hround : nodes.circle share * share = nodes.count * (share / share.gcd nodes.count) := by
    rw [circle, Nat.div_mul_right_comm (Nat.gcd_dvd_right share nodes.count),
      Nat.mul_div_assoc _ (Nat.gcd_dvd_left share nodes.count)]
  have hback : (first + nodes.circle share) * share % nodes.count =
      first * share % nodes.count := by
    rw [Nat.add_mul, hround, Nat.add_mul_mod_self_left]
  have hmore : ∀ {index more : Nat},
      (first + index) * share % nodes.count = first * share % nodes.count → index < more →
      Nat.count (fun index => (first + index) * share % nodes.count =
        first * share % nodes.count) index <
      Nat.count (fun index => (first + index) * share % nodes.count =
        first * share % nodes.count) more := fun hpage hlt => Nat.count_strict_mono hpage hlt
  rw [dealtPages_eq_count]
  exact Nat.lt_of_le_of_lt (Nat.zero_lt_of_lt (hmore rfl (nodes.circle_pos share))) (hmore hback h)

/-- The shares of any two nodes differ by at most one just if all nodes are on the circle, or it is
not gone round more than once. -/
theorem dealtPages_le_iff (nodes : Nodes) (share first count : Nat) :
    (∀ place < nodes.count, ∀ other < nodes.count, nodes.dealtPages share first count place ≤
      nodes.dealtPages share first count other + 1) ↔
    share.gcd nodes.count = 1 ∨ count ≤ nodes.circle share := by
  constructor
  · intro heven
    by_contra hnot
    obtain ⟨hdivisor, hcount⟩ := not_or.mp hnot
    have htwice := two_le_dealtPages first (Nat.lt_of_not_le hcount)
    have hnone : ¬ share.gcd nodes.count ∣ 1 := fun h => hdivisor (Nat.dvd_one.mp h)
    -- So there is a second node, and it gets no page.
    have hone : 1 < nodes.count := by
      refine Nat.lt_of_le_of_ne nodes.nonempty fun hsingle => hnone ?_
      rw [show 1 = nodes.count from hsingle]
      exact Nat.gcd_dvd_right share nodes.count
    have hle := heven _ (Nat.mod_lt (first * share) nodes.nonempty) 1 hone
    rw [dealtPages_eq_zero first count hnone] at hle
    omega
  · rintro (hdivisor | hcount) place hplace other hother
    · exact dealtPages_le first count hplace (hdivisor ▸ Nat.one_dvd _) hother
        (hdivisor ▸ Nat.one_dvd _)
    · have hle : nodes.dealtPages share first count place ≤ 1 := by
        by_cases hdvd : share.gcd nodes.count ∣ place
        · have hround : count / nodes.circle share ≤ 1 ∧
              Word.divCeil count (nodes.circle share) ≤ 1 := by
            have hpos := nodes.circle_pos share
            unfold Word.divCeil
            rw [← Nat.lt_succ_iff, ← Nat.lt_succ_iff, Nat.div_lt_iff_lt_mul hpos,
              Nat.div_lt_iff_lt_mul hpos]
            omega
          rcases dealtPages_eq first count hplace hdvd with h | h <;> omega
        · rw [dealtPages_eq_zero first count hdvd]
          exact Nat.zero_le _
      omega

end Nodes

namespace Mapper

variable {σ : Type} {mapper after : Mapper σ} {references : GranuleTable}
  {regionsPerPage firstPage region start count : Nat} {progress next : Progress}
  {pretoucher : Option Pretoucher} {trace : List Effect}

/-! ## The regions that are placed -/

/-- The regions in whose names pages were placed, in order. -/
def placedRegions (trace : List Effect) : List Nat := (Effect.placements trace).map (·.region)

theorem placedRegions_append (a b : List Effect) :
    placedRegions (a ++ b) = placedRegions a ++ placedRegions b := by
  rw [placedRegions, Effect.placements_append, List.map_append]
  rfl

theorem placedRegions_of_none (h : Effect.placements trace = []) : placedRegions trace = [] := by
  rw [placedRegions, h]
  rfl

variable [PageStore σ]

theorem placedRegions_placePages {page : Nat} (hplaced : mapper.memoryKind.isPlaced = true)
    (h : placePages page count region mapper = ⟨.ok (), after, trace⟩) :
    placedRegions trace = [region] := by
  unfold placePages at h
  rw [Op.get_bind, if_pos hplaced] at h
  obtain ⟨_, _, _, _, hsize, hrest, rfl⟩ := Op.of_bind_run_ok h
  obtain ⟨-, rfl, rfl⟩ := Op.of_checked_ok hsize
  obtain ⟨_, _, _, _, haddress, hlast, rfl⟩ := Op.of_bind_run_ok hrest
  obtain ⟨-, rfl, rfl⟩ := Op.of_checked_ok haddress
  cases hlast
  rfl

variable [QuietStore σ]

/-- A region stands for its page where no region refers to that yet. -/
theorem placedRegions_commitRegion (hstrategy : mapper.strategy = .small regionsPerPage references)
    (hpage : region / regionsPerPage < references.size)
    (hplaced : mapper.memoryKind.isPlaced = true)
    (h : commitRegion regionsPerPage progress region mapper = ⟨.ok next, after, trace⟩) :
    placedRegions trace =
      if references.entry (region / regionsPerPage) = 0 then [region] else [] := by
  unfold commitRegion at h
  simp only [] at h
  rw [Op.bind_eq_after (readReferences_run hstrategy hpage), Run.after_nil] at h
  by_cases hentry : references.entry (region / regionsPerPage) = 0
  · rw [if_pos hentry] at h ⊢
    obtain ⟨_, middle, _, _, hacquire, hrest, rfl⟩ := Op.of_bind_run_ok h
    obtain ⟨zeroFilled, committed, called, _, hcommit, hplaces, rfl⟩ := Op.of_bind_run_ok hacquire
    obtain ⟨_, _, placed, noted, hplace, hnoted, rfl⟩ := Op.of_bind_run_ok hplaces
    obtain rfl := of_countRegion hrest
    obtain ⟨-, posts⟩ := of_commitPages_ok hcommit
    have hcalled : Effect.placements called = [] := by
      have hnone := posts.length_placements
      rwa [ite_self, List.length_eq_zero_iff] at hnone
    have hnote : Effect.placements noted = [] := by
      cases hnoted
      rfl
    rw [← posts.kind_eq] at hplaced
    simp only [placedRegions_append, placedRegions_of_none hcalled, placedRegions_of_none hnote,
      placedRegions_placePages hplaced hplace]
    rfl
  · rw [if_neg hentry] at h ⊢
    apply placedRegions_of_none
    split at h <;>
      · rw [pure_bind] at h
        rw [of_countRegion h]
        rfl

/-! ## Batches of whole pages -/

/-- Of the regions of some pages, the first ones of the pages are at the multiples. -/
theorem filter_first (hpos : 0 < regionsPerPage) (firstPage count : Nat) :
    (List.range' (firstPage * regionsPerPage) (count * regionsPerPage)).filter
      (fun region => region % regionsPerPage = 0) =
    (List.range' firstPage count).map (· * regionsPerPage) := by
  induction count with
  | zero =>
    rw [Nat.zero_mul]
    rfl
  | succ count ih =>
    have hlast : (List.range' ((firstPage + count) * regionsPerPage) regionsPerPage).filter
        (fun region => region % regionsPerPage = 0) = [(firstPage + count) * regionsPerPage] := by
      obtain ⟨others, rfl⟩ := Nat.exists_eq_succ_of_ne_zero (Nat.ne_of_gt hpos)
      have hothers : (List.range' ((firstPage + count) * others.succ + 1) others).filter
          (fun region => region % others.succ = 0) = [] := by
        rw [List.filter_eq_nil_iff]
        intro region hregion
        obtain ⟨more, hmore, rfl⟩ := List.mem_range'.mp hregion
        have hrest : 1 + 1 * more < others.succ := by omega
        rw [decide_eq_true_eq, Nat.add_assoc, Nat.mul_add_mod_self_right, Nat.mod_eq_of_lt hrest]
        omega
      rw [List.range'_succ, List.filter_cons, hothers, if_pos]
      exact decide_eq_true (Nat.mul_mod_left ..)
    rw [List.range'_1_concat, List.map_append, ← ih, Nat.succ_mul, ← List.range'_append_1,
      List.filter_append, ← Nat.add_mul, hlast]
    rfl

omit [QuietStore σ] in
/-- In a batch of all regions of some pages, nothing refers to a page before its first region. -/
theorem Underway.residents_eq_zero_iff {zeroes : Nat → Bool} (hpos : 0 < regionsPerPage)
    (underway : Underway regionsPerPage (firstPage * regionsPerPage) region mapper progress after
      trace zeroes)
    (ready : mapper.Ready false (firstPage * regionsPerPage) (count * regionsPerPage))
    (hfirst : firstPage * regionsPerPage ≤ region)
    (hlast : region < firstPage * regionsPerPage + count * regionsPerPage) :
    after.committed.residents regionsPerPage (region / regionsPerPage) = 0 ↔
      region % regionsPerPage = 0 := by
  obtain ⟨_, table⟩ := underway.table
  have hpage := Nat.div_add_mod' region regionsPerPage
  rw [← Nat.not_lt.trans Nat.le_zero, Bitmap.residents_pos_iff table.tidy]
  constructor
  · intro hnone
    by_contra hrest
    -- The region before it is on the same page, and it is in the batch.
    have hbefore : region - 1 = region / regionsPerPage * regionsPerPage +
      (region % regionsPerPage - 1) := by omega
    have hmod : region % regionsPerPage - 1 < regionsPerPage :=
      Nat.lt_of_le_of_lt (Nat.sub_le _ _) (Nat.mod_lt region hpos)
    refine hnone ⟨region - 1, ?_, ?_⟩
    · have hne : firstPage * regionsPerPage ≠ region := by
        rintro rfl
        exact hrest (Nat.mul_mod_left ..)
      rw [underway.bit_eq, if_pos (by omega)]
    · rw [hbefore, Nat.mul_comm, Nat.mul_add_div hpos, Nat.div_eq_of_lt hmod, Nat.add_zero]
  · rintro hrest ⟨other, hset, hsame⟩
    have hother := Nat.div_add_mod' other regionsPerPage
    rw [hsame] at hother
    have hend : other < firstPage * regionsPerPage + count * regionsPerPage := by
      rw [← Nat.add_mul, ← Nat.div_lt_iff_lt_mul hpos] at hlast ⊢
      rwa [hsame]
    rw [underway.bit_eq, if_neg (by omega), ready.bit_eq other (by omega) hend] at hset
    cases hset

/-- A batch of all regions of some pages that came to the end of its loop placed each page in the
name of its first region. -/
theorem SharedTable.placedRegions_eq (table : SharedTable regionsPerPage references mapper)
    (ready : mapper.Ready false (firstPage * regionsPerPage) (count * regionsPerPage))
    (hplaced : mapper.memoryKind.isPlaced = true)
    (h : Op.fold (commitRegion regionsPerPage) Progress.start
      (List.range' (firstPage * regionsPerPage) (count * regionsPerPage)) mapper =
        ⟨.ok progress, after, trace⟩) :
    placedRegions trace = (List.range' firstPage count).map (· * regionsPerPage) := by
  obtain ⟨-, hplaces⟩ := Op.inv_of_fold_range_ok (fun region progress after trace =>
      (∃ zeroes, Underway regionsPerPage (firstPage * regionsPerPage) region mapper progress after
        trace zeroes) ∧
      placedRegions trace = (List.range' (firstPage * regionsPerPage)
        (region - firstPage * regionsPerPage)).filter fun region => region % regionsPerPage = 0)
      h ⟨⟨fun _ => false, .start_start table _ _⟩, by rw [Nat.sub_self]; rfl⟩
      fun region progress after trace next later shown hfirst hlast hinv hrun => by
    obtain ⟨⟨zeroes, underway⟩, hsofar⟩ := hinv
    obtain ⟨_, table'⟩ := underway.table
    have hregion : region < after.committed.size := by
      rw [underway.size_eq]
      exact Nat.lt_of_lt_of_le hlast ready.le_size
    have hclear := underway.bit_next.trans (ready.bit_eq region hfirst hlast)
    have hthis := placedRegions_commitRegion table'.strategy_eq (table'.page_lt hregion)
      (underway.posts.kind_eq ▸ hplaced) hrun
    rcases table'.commitRegion_cases hregion hclear progress with
      ⟨_, _, _, _, _, hrun', table'', hbits, takes, serves, posts⟩ | ⟨_, _, _, hrun', -⟩
    · cases hrun'.symm.trans hrun
      refine ⟨underway.advance hfirst hregion hclear table'' hbits takes serves posts, ?_⟩
      have hstart : firstPage * regionsPerPage + (region - firstPage * regionsPerPage) = region :=
        Nat.add_sub_cancel' hfirst
      rw [placedRegions_append, hsofar, hthis, Nat.sub_add_comm hfirst, List.range'_1_concat,
        List.filter_append, hstart, table'.entry_eq,
        if_congr (underway.residents_eq_zero_iff table.share_pos ready hfirst hlast) rfl rfl]
      simp only [List.filter_singleton, Bool.cond_decide]
    · cases hrun'.symm.trans hrun
  rw [hplaces, Nat.add_sub_cancel_left, filter_first table.share_pos]

/-! ## One commit -/

/-- The pages of a commit were dealt out to the nodes, each to the node of its first region. Only
nodes of the circle were asked for pages, each of them for its share, which is that of any other one
up to one. So the shares of all nodes are even just if all nodes are on the circle, or there are no
more pages than nodes on it. -/
structure DealsPages (regionsPerPage firstPage count : Nat) (nodes after : Nodes) : Prop where
  requests_eq : ∀ place, (after.node? place).map (·.requests) = (nodes.node? place).map fun node =>
    node.requests + .ofNat (nodes.dealtPages regionsPerPage firstPage count place)
  dealt_zero : ∀ place, ¬ regionsPerPage.gcd nodes.count ∣ place →
    nodes.dealtPages regionsPerPage firstPage count place = 0
  dealt_eq : ∀ place < nodes.count, regionsPerPage.gcd nodes.count ∣ place →
    nodes.dealtPages regionsPerPage firstPage count place = count / nodes.circle regionsPerPage ∨
      nodes.dealtPages regionsPerPage firstPage count place =
        Word.divCeil count (nodes.circle regionsPerPage)
  dealt_le_iff : (∀ place < nodes.count, ∀ other < nodes.count,
      nodes.dealtPages regionsPerPage firstPage count place ≤
        nodes.dealtPages regionsPerPage firstPage count other + 1) ↔
    regionsPerPage.gcd nodes.count = 1 ∨ count ≤ nodes.circle regionsPerPage

/-- Nodes that were asked for pages in the names of their first regions. -/
theorem dealsPages_of_placements {nodes : Nodes} {placements : List Placement}
    (h : placements.map (·.region) = (List.range' firstPage count).map (· * regionsPerPage)) :
    DealsPages regionsPerPage firstPage count nodes (placements.foldl Nodes.request nodes) where
  requests_eq place := by
    have hrouted : (nodes.routed placements place).length =
        nodes.dealtPages regionsPerPage firstPage count place := by
      calc (nodes.routed placements place).length
        _ = ((placements.map (·.region)).filter
              fun region => nodes.preferred region = place).length := by
          rw [List.filter_map, List.length_map]
          rfl
        _ = nodes.dealtPages regionsPerPage firstPage count place := by
          rw [h, List.filter_map, List.length_map]
          rfl
    rw [Nodes.node?_foldl_request, Option.map_map, hrouted]
    rfl
  dealt_zero _ := Nodes.dealtPages_eq_zero firstPage count
  dealt_eq _ := Nodes.dealtPages_eq firstPage count
  dealt_le_iff := nodes.dealtPages_le_iff regionsPerPage firstPage count

/-- A commit of all regions of some pages that came to its end. -/
theorem SharedTable.dealsPages (table : SharedTable regionsPerPage references mapper)
    (hplaced : mapper.memoryKind.isPlaced = true)
    (h : commitRegions (firstPage * regionsPerPage) (count * regionsPerPage) pretoucher mapper =
      ⟨.ok (), after, trace⟩) :
    DealsPages regionsPerPage firstPage count mapper.nodes after.nodes := by
  rcases Nat.eq_zero_or_pos count with rfl | hcount
  · -- No page is placed where there is none.
    rw [Nat.zero_mul] at h
    have hnodes : after.nodes = mapper.nodes := by
      by_cases ready : mapper.Ready false (firstPage * regionsPerPage) 0
      · rw [ready.commitRegions_eq, if_pos rfl] at h
        obtain ⟨_, _, _, _, hcounted, htold, -⟩ := Op.of_bind_run_ok h
        cases hcounted
        rw [notify_run] at htold
        cases htold
        rfl
      · obtain ⟨_, -, hrun⟩ := commitRegions_fault ready pretoucher
        cases hrun.symm.trans h
    rw [hnodes]
    have hnone : ([] : List Placement).map (·.region) =
        (List.range' firstPage 0).map (· * regionsPerPage) := rfl
    exact dealsPages_of_placements hnone
  · obtain ⟨ready, backing, last, backed, reported, hback, rfl, -⟩ :=
      of_commitRegions_ok (Nat.mul_pos hcount table.share_pos) h
    rw [backRegions_small table.strategy_eq] at hback
    unfold commitShared at hback
    obtain ⟨progress, middle, earlier, _, hloop, hrest, -⟩ := Op.of_bind_run_ok hback
    obtain ⟨_, passed, later, _, hpass, hend, -⟩ := Op.of_bind_run_ok hrest
    have hmiddle : middle.nodes = (Effect.placements earlier).foldl Nodes.request mapper.nodes := by
      have hroutes := Op.fold_replays (commitRegion_routes regionsPerPage) Progress.start
        (List.range' (firstPage * regionsPerPage) (count * regionsPerPage)) mapper
      rw [hloop] at hroutes
      rw [← Nodes.foldl_hear]
      exact hroutes
    have hpassed : passed.nodes = middle.nodes := by
      have hroutes := pretouchFresh_routes progress.fresh pretoucher middle
      rw [hpass, Nodes.foldl_hear, (pretouchFresh_unplaced hpass).placements_eq] at hroutes
      exact hroutes
    cases hend
    show DealsPages _ _ _ _ last.nodes
    rw [hpassed, hmiddle]
    exact dealsPages_of_placements (table.placedRegions_eq ready hplaced hloop)

/-! ## At all times -/

/-- Whatever came before and whatever the store answers, a commit of all regions of some pages of the
heap deals these out to the nodes, whichever these are. The nodes share them evenly just if no number
but one divides both the regions of a page and the nodes, or there are too few pages to go round the
circle a second time. -/
theorem pages_spread_throughout {τ : Type} {between : σ → σ → Prop} {store : σ}
    {settings : Settings} {state : τ} {first : Mapper σ} (hheap : settings.memoryKind = .heap)
    (hfirst : (createWith store settings .small state).result = .ok first)
    (h : Reachable between first mapper)
    (hok : commitRegions
      (firstPage * (settings.pageSize * settings.commitFactor / settings.regionSize))
      (count * (settings.pageSize * settings.commitFactor / settings.regionSize)) pretoucher mapper =
        ⟨.ok (), after, trace⟩) :
    DealsPages (settings.pageSize * settings.commitFactor / settings.regionSize) firstPage count
      mapper.nodes after.nodes := by
  obtain ⟨created, _, rfl⟩ := of_createWith_ok hfirst
  obtain ⟨_, table, -⟩ := created.sharedTable
  obtain ⟨_, table⟩ := h.sharedTable table
  have hplaced : mapper.memoryKind.isPlaced = true := by
    rw [h.memoryKind_eq]
    exact congrArg MemoryKind.isPlaced hheap
  exact table.dealsPages hplaced hok

/-- A store of two pages, each for two regions, and three nodes. The pages go to the first node and
to the last one. -/
theorem pages_spread_of_three_nodes : ∃ first after trace,
    (createWith (⟨8192, 4096, 65536, true, [], [], [], ∅⟩ : ScriptedStore) .fourRegions .small
      ()).result = .ok first ∧
    commitRegions (0 * 2) (2 * 2) none (first.withNodes (.ofIds [0, 1, 2])) =
      ⟨.ok (), after, trace⟩ ∧
    DealsPages 2 0 2 (first.withNodes (.ofIds [0, 1, 2])).nodes after.nodes ∧
    after.nodes.nodes.map (·.requests) = #[1, 0, 1] := by
  obtain ⟨first, hfirst⟩ : ∃ first, (createWith (⟨8192, 4096, 65536, true, [], [], [], ∅⟩ :
      ScriptedStore) .fourRegions .small ()).result = .ok first := ⟨_, rfl⟩
  have hreachable : Reachable Eq first (first.withNodes (.ofIds [0, 1, 2])) := .single (.nodes _)
  have hrun : (commitRegions (0 * 2) (2 * 2) none (first.withNodes (.ofIds [0, 1, 2]))).result =
        .ok () ∧
      (commitRegions (0 * 2) (2 * 2) none
        (first.withNodes (.ofIds [0, 1, 2]))).state.nodes.nodes.map (·.requests) = #[1, 0, 1] := by
    cases hfirst
    decide +kernel
  match hok : commitRegions (0 * 2) (2 * 2) none (first.withNodes (.ofIds [0, 1, 2])) with
  | ⟨result, after, trace⟩ =>
    rw [hok] at hrun
    obtain ⟨rfl, hrequests⟩ := hrun
    exact ⟨first, after, trace, hfirst, hok,
      pages_spread_throughout rfl hfirst hreachable hok, hrequests⟩

/-- Where as many regions share a page as there are nodes, all pages go to the first node. -/
theorem pages_on_one_node_of_two : ∃ first,
    (reserveWith .fourRegions 8192 .heap false .small .willing).result = .ok first ∧
    ((Call.commit 0 4 none).run (first.withNodes (.ofIds [0, 1]))).result = .ok () ∧
    (first.withNodes (.ofIds [0, 1])).nodes.nodes.map (·.requests) = #[0, 0] ∧
    ((Call.commit 0 4 none).run (first.withNodes (.ofIds [0, 1]))).state.nodes.nodes.map
      (·.requests) = #[2, 0] := by
  have hviews : ∀ first : Mapper PageSpace,
      (reserveWith .fourRegions 8192 .heap false .small .willing).result = .ok first →
      ((Call.commit 0 4 none).run (first.withNodes (.ofIds [0, 1]))).result = .ok () ∧
      (first.withNodes (.ofIds [0, 1])).nodes.nodes.map (·.requests) = #[0, 0] ∧
      ((Call.commit 0 4 none).run (first.withNodes (.ofIds [0, 1]))).state.nodes.nodes.map
        (·.requests) = #[2, 0] := by
    intro first hfirst
    cases hfirst
    decide +kernel
  exact ⟨_, rfl, hviews _ rfl⟩

end Mapper

end RegionBacking
