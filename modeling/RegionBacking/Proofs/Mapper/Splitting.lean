import RegionBacking.Proofs.Mapper.Granting
import RegionBacking.Proofs.Mapper.Routing
import RegionBacking.Proofs.Mapper.ZeroFilled

/-!
# Calls that are split

A call may be split at any of its regions, also where that lies on a page with others. What the two
parts make of a mapper is told from the regions that they turn, and so are the placements that they
ask for; the counters go with these. So they do what the whole call does (`split_throughout`). The
parts may know less of the bytes: a commit is reported to read as zero just if no page of its regions
was committed or dirty (`reportsZeroes_iff`), and the second part finds the pages of the first one
committed.
-/

namespace RegionBacking

namespace PageSpace

variable {space after : PageSpace} {page : Nat}

/-- A page that is neither committed nor dirty. -/
def Pristine (space : PageSpace) (page : Nat) : Prop :=
  space.isCommitted page = false ∧ space.dirty.bit page = false

/-- Where pages are only committed, a page that is pristine in the end was so at first. -/
theorem OneWay.pristine (way : OneWay true space after) (sound : space.Sound) (sound' : after.Sound)
    (pristine : after.Pristine page) : space.Pristine page := by
  obtain ⟨hclear, hclean⟩ := pristine
  rw [sound'.isCommitted_eq] at hclear
  have hbefore : space.committed.bit page = false := by
    rw [← Bool.not_eq_true]
    intro hset
    cases hclear.symm.trans (way.bit_eq page hset)
  refine ⟨(sound.isCommitted_eq page).trans hbefore, ?_⟩
  rw [way.dirty_bit_eq, hclear, hbefore, if_pos rfl] at hclean
  exact hclean

end PageSpace

/-- All commits that a trace reports, to the trail or to the listener, are said to read as zero. -/
structure Effect.ReportsZeroes (trace : List Effect) : Prop where
  of_event : ∀ {kind : MemoryKind} {start count pages : Nat} {zeroFilled : Bool},
    .commit kind start count pages zeroFilled ∈ Effect.entries trace → zeroFilled = true
  of_notification : ∀ notification ∈ Effect.notifications trace, notification.zeroFilled = true

/-- The counters but those of the calls. -/
def Activity.work (activity : Activity) : Activity :=
  { activity with commitCalls := 0, uncommitCalls := 0 }

/-- Two commits do the work of one. -/
theorem Activity.work_commit (activity : Activity) (touched touched' regions regions' pages pages'
    placed placed' : Nat) :
    ((((((activity.pretouch touched).commit regions pages).place placed).pretouch touched').commit
      regions' pages').place placed').work =
    (((activity.pretouch (touched + touched')).commit (regions + regions') (pages + pages')).place
      (placed + placed')).work := by
  simp only [work, pretouch, commit, place, UInt64.ofNat_add, UInt64.add_assoc]

/-- Two uncommits do the work of one. -/
theorem Activity.work_uncommit (activity : Activity) (regions regions' pages pages' : Nat) :
    ((activity.uncommit regions pages).uncommit regions' pages').work =
      (activity.uncommit (regions + regions') (pages + pages')).work := by
  simp only [work, uncommit, UInt64.ofNat_add, UInt64.add_assoc]

namespace Mapper

variable {mapper after : Mapper PageSpace} {references : GranuleTable} {backing : Backing}
  {share start count part page region : Nat} {pretoucher : Option Pretoucher}
  {trace : List Effect}

/-! ## What a commit says of its bytes -/

/-- A page that was committed for a batch was answered to read as zero just if it was not dirty. -/
theorem Underway.zeroes_iff {progress : Progress} {zeroes : Nat → Bool} {stop : Nat}
    (underway : Underway share start stop mapper progress after trace zeroes)
    (sound : mapper.store.Sound) (hpage : page ∈ progress.fresh) :
    zeroes page = true ↔ mapper.store.dirty.bit page = false := by
  have hanswer : ⟨⟨.commit, page, 1⟩, zeroes page⟩ ∈ progress.answers zeroes :=
    List.mem_map_of_mem (List.mem_reverse.mpr hpage)
  have hcommits : ∀ answer ∈ progress.answers zeroes, answer.call.kind = .commit := by
    intro answer hanswer
    obtain ⟨_, -, rfl⟩ := List.mem_map.mp hanswer
    rfl
  refine (PageSpace.zeroFilled_iff_of_transcript underway.serves.transcript sound hcommits _
    hanswer).trans ⟨fun h => h page ⟨Nat.le_refl page, Nat.lt_succ_self page⟩, ?_⟩
  intro hclean other covers
  obtain rfl : page = other := Nat.le_antisymm covers.1 (Nat.le_of_lt_succ covers.2)
  exact hclean

/-- A batch that came to its end says that all reads as zero just if the pages of all its regions
were pristine. -/
theorem zeroFilled_iff_pristine (sound : mapper.Sound) (ready : mapper.Ready false start count)
    (h : backRegions start count pretoucher mapper = ⟨.ok backing, after, trace⟩) :
    backing.zeroFilled = true ↔ ∀ region, start ≤ region → region < start + count → ∀ page,
      mapper.strategy.Hosts page region → mapper.store.Pristine page := by
  cases sound with
  | small share references books =>
    rw [backRegions_small books.strategy_eq] at h
    obtain ⟨progress, _, _, _, zeroes, _, -, underway, -, -, hzero⟩ :=
      books.table.of_commitShared_ok ready h
    rw [hzero, underway.vouches.zeroFilled_iff, books.strategy_eq]
    refine forall₃_congr fun region hge hlt => ?_
    have hfresh := underway.mem_fresh_iff books.table ready hge hlt
    have hcommitted : mapper.references? (region / share) = some 0 ↔
        mapper.store.isCommitted (region / share) = false := by
      have hbacked : mapper.store.isCommitted (region / share) =
          decide (0 < references.entry (region / share)) := books.backed_eq _
      rw [books.table.references?_eq (Nat.lt_of_lt_of_le hlt ready.le_size), hbacked,
        books.entry_eq, Option.some_inj, decide_eq_false_iff_not, Nat.pos_iff_ne_zero, not_not]
    constructor
    · rintro ⟨hmem, hzeroes⟩ page rfl
      exact ⟨hcommitted.mp (hfresh.mp hmem), (underway.zeroes_iff books.store_sound hmem).mp hzeroes⟩
    · intro hpristine
      obtain ⟨hclear, hclean⟩ := hpristine _ rfl
      have hmem := hfresh.mpr (hcommitted.mpr hclear)
      exact ⟨hmem, (underway.zeroes_iff books.store_sound hmem).mpr hclean⟩
  | large pages books =>
    rw [backRegions_large books.strategy_eq] at h
    obtain ⟨_, _, _, _, zeroFilled, _, -, serves, -, -, -, -, hzero⟩ := of_commitWhole_ok h
    cases serves.transcript with
    | commit hcommit =>
      rw [hzero, (PageSpace.zeroFilled_iff_of_commit books.store_sound hcommit).1,
        books.strategy_eq]
      constructor
      · rintro hclean region hge hlt page rfl
        have hpage := (page_mem_iff books.share_pos page).mpr ⟨hge, hlt⟩
        exact ⟨(books.backed_eq page).trans (ready.bit_eq _ hge hlt),
          hclean page hpage.1 hpage.2⟩
      · intro hpristine page hge hlt
        have hregion := (page_mem_iff books.share_pos page).mp ⟨hge, hlt⟩
        exact (hpristine _ hregion.1 hregion.2 page rfl).2

/-- What the listener is told reads as zero just if it is told so. -/
theorem zeroFilled_of_mem_told {zeroFilled : Bool} {notification : Notification}
    (h : notification ∈ Effect.notifications (mapper.told start count zeroFilled)) :
    notification.zeroFilled = zeroFilled := by
  rw [notifications_told] at h
  split at h
  · rw [List.mem_singleton.mp h]
  · cases h

/-- A commit that came to its end is reported to read as zero just if the pages of all its regions
were pristine. -/
theorem reportsZeroes_iff (inUse : mapper.InUse)
    (inWords : (Call.commit start count pretoucher).InWords)
    (hok : ((Call.commit start count pretoucher).run mapper).result = .ok ()) :
    Effect.ReportsZeroes ((Call.commit start count pretoucher).run mapper).trace ↔
      ∀ region, start ≤ region → region < start + count → ∀ page,
        mapper.strategy.Hosts page region → mapper.store.Pristine page := by
  have ready : mapper.Ready false start count := Call.readyOn_of_ok hok
  cases hrun : (Call.commit start count pretoucher).run mapper with
  | mk result after trace =>
  rw [hrun] at hok
  cases hok
  have hrun : commitRegions start count pretoucher mapper = ⟨.ok (), after, trace⟩ := hrun
  rcases Nat.eq_zero_or_pos count with rfl | hcount
  · -- A commit of no regions is heard, and no event reports it.
    rw [ready.commitRegions_eq, if_pos rfl, Mapper.count, Op.modify_bind, notify_run] at hrun
    cases hrun
    refine iff_of_true ⟨fun h => ?_, fun _ => zeroFilled_of_mem_told⟩ fun region hge hlt => ?_
    · rw [(told_entries _ _ _ _).1] at h
      cases h
    · omega
  · obtain ⟨-, backing, middle, earlier, reported, hback, -, rfl, silent, hentries⟩ :=
      of_commitRegions_ok hcount hrun
    have chunked := inUse.chunked inWords
    obtain ⟨_, posts⟩ := (backRegions_posted inUse.sound ready chunked hback).posts
    have hquiet : Effect.notifications earlier = [] := by
      rcases backRegions_run inUse.sound hcount ready pretoucher fun _ _ => chunked with
        ⟨_, _, _, _, hrun', brought, -⟩ | ⟨_, _, _, _, _, hrun', -⟩
      · cases hrun'.symm.trans hback
        exact brought.reaches.notifications_eq
      · cases hrun'.symm.trans hback
    have hevents : Effect.entries
        (earlier ++ (reported ++ middle.told start count backing.zeroFilled)) =
        [.commit middle.memoryKind start count backing.pages backing.zeroFilled] := by
      rw [Effect.entries_append, Effect.entries_append, posts.entries_eq, hentries,
        (told_entries _ _ _ _).1]
      rfl
    rw [← zeroFilled_iff_pristine inUse.sound ready hback]
    constructor
    · intro h
      exact h.of_event (hevents ▸ List.mem_singleton_self _)
    · intro hzero
      refine ⟨fun h => ?_, fun notification h => ?_⟩
      · rw [hevents] at h
        cases List.mem_singleton.mp h
        exact hzero
      · rw [Effect.notifications_append, Effect.notifications_append, hquiet,
          silent.notifications_eq] at h
        exact (zeroFilled_of_mem_told h).trans hzero

/-! ## A call and its parts -/

namespace Made

/-- The first regions of a call, as a call of their own. -/
def front (made : Made) (part : Nat) : Made :=
  ⟨made.mapper, made.call.onRange made.call.start part⟩

/-- The other regions of the call, as a call behind that. -/
def rest (made : Made) (part : Nat) : Made :=
  ⟨(made.front part).after, made.call.onRange (made.call.start + part) (made.call.count - part)⟩

variable {made : Made}

@[simp] theorem mapper_front (made : Made) (part : Nat) :
    (made.front part).mapper = made.mapper := rfl

@[simp] theorem mapper_rest (made : Made) (part : Nat) :
    (made.rest part).mapper = (made.front part).after := rfl

@[simp] theorem isCommit_front (made : Made) (part : Nat) :
    (made.front part).call.isCommit = made.call.isCommit := Call.isCommit_onRange _ _ _

@[simp] theorem isCommit_rest (made : Made) (part : Nat) :
    (made.rest part).call.isCommit = made.call.isCommit := Call.isCommit_onRange _ _ _

@[simp] theorem start_front (made : Made) (part : Nat) :
    (made.front part).call.start = made.call.start := Call.start_onRange _ _ _

@[simp] theorem start_rest (made : Made) (part : Nat) :
    (made.rest part).call.start = made.call.start + part := Call.start_onRange _ _ _

@[simp] theorem count_front (made : Made) (part : Nat) : (made.front part).call.count = part :=
  Call.count_onRange _ _ _

@[simp] theorem count_rest (made : Made) (part : Nat) :
    (made.rest part).call.count = made.call.count - part := Call.count_onRange _ _ _

theorem nodes_eq (made : Made) : made.after.nodes =
    (Effect.placements made.run.trace).foldl Nodes.request made.mapper.nodes :=
  made.call.nodes_eq made.mapper

/-- What the two parts of a call add to a size, or take from it, makes up what the call does. -/
theorem moves_add {size : Mapper PageSpace → Nat} {amount front rest : Nat}
    (hsame : size (made.rest part).after = size made.after) (hwhole : made.Moves size amount)
    (hfront : (made.front part).Moves size front) (hrest : (made.rest part).Moves size rest) :
    amount = front + rest := by
  rw [Made.Moves, isCommit_front, mapper_front] at hfront
  rw [Made.Moves, isCommit_rest, mapper_rest] at hrest
  by_cases hcommit : made.call.isCommit = true
  · rw [Made.Moves, if_pos hcommit] at hwhole
    rw [if_pos hcommit] at hfront hrest
    omega
  · rw [Made.Moves, if_neg hcommit] at hwhole
    rw [if_neg hcommit] at hfront hrest
    omega

/-- The first part of a call turns the first regions. -/
theorem turns_front (inUse : made.mapper.InUse) (inWords : made.call.InWords)
    (hok : (made.front part).run.result = .ok ()) : Turns made.call.isCommit made.call.start
      (made.call.start + part) made.mapper (made.front part).after := by
  have inWords₁ : (made.front part).call.InWords := Call.inWords_onRange inWords _ _
  have turns := turns_of_ok inUse inWords₁ hok
  rwa [isCommit_front, start_front, count_front] at turns

end Made

/-- What a call that comes to its end asks for is told in front of it: a commit for the placements of
its regions, an uncommit for none. -/
theorem placements_of_ok {call : Call} (inUse : mapper.InUse) (inWords : call.InWords)
    (hok : (call.run mapper).result = .ok ()) : Effect.placements (call.run mapper).trace =
      if call.isCommit then mapper.asked call.start (call.start + call.count) else [] := by
  cases call with
  | commit start count pretoucher =>
    exact ((commitRegions_placed inUse.sound (inUse.chunked inWords)).of_ok hok).1.placements_eq
  | uncommit start count =>
    obtain ⟨_, -, -, hnone⟩ := @Made.of_uncommit_ok start count ⟨mapper, .uncommit start count⟩
      inUse inWords hok rfl
    exact List.length_eq_zero_iff.mp hnone

theorem touched_add (mapper : Mapper PageSpace) (pretoucher : Option Pretoucher)
    (pages more : Nat) : mapper.touched pretoucher (pages + more) =
      mapper.touched pretoucher pages + mapper.touched pretoucher more := by
  unfold touched
  split <;> rfl

/-- A call and its two parts, all of which came to their end. -/
structure Split (whole : Made) (part : Nat) : Prop where
  inUse : whole.mapper.InUse
  inWords : whole.call.InWords
  part_le : part ≤ whole.call.count
  whole_ok : whole.run.result = .ok ()
  front_ok : (whole.front part).run.result = .ok ()
  rest_ok : (whole.rest part).run.result = .ok ()

namespace Split

variable {whole : Made}

theorem end_eq (split : Split whole part) :
    whole.call.start + part + (whole.call.count - part) = whole.call.start + whole.call.count := by
  rw [Nat.add_assoc, Nat.add_sub_cancel' split.part_le]

theorem inWords_front (split : Split whole part) : (whole.front part).call.InWords :=
  Call.inWords_onRange split.inWords _ _

theorem inWords_rest (split : Split whole part) : (whole.rest part).call.InWords :=
  Call.inWords_onRange split.inWords _ _

theorem inUse_rest (split : Split whole part) : (whole.rest part).mapper.InUse :=
  split.inUse.follows (.call _ split.inWords_front)

theorem turns_front (split : Split whole part) : Turns whole.call.isCommit whole.call.start
    (whole.call.start + part) whole.mapper (whole.front part).after :=
  Made.turns_front split.inUse split.inWords split.front_ok

theorem turns_rest (split : Split whole part) : Turns whole.call.isCommit (whole.call.start + part)
    (whole.call.start + whole.call.count) (whole.front part).after (whole.rest part).after := by
  have turns := turns_of_ok split.inUse_rest split.inWords_rest split.rest_ok
  rwa [Made.isCommit_rest, Made.start_rest, Made.count_rest, split.end_eq] at turns

theorem sameState (split : Split whole part) : SameState whole.after (whole.rest part).after := by
  have turns := turns_of_ok split.inUse split.inWords split.whole_ok
  exact turns.sameState (split.turns_front.trans split.turns_rest (Nat.le_add_right _ _)
    (Nat.add_le_add_left split.part_le _))

/-! ### Placements -/

theorem placements_eq (split : Split whole part) : Effect.placements whole.run.trace =
    Effect.placements (whole.front part).run.trace ++
      Effect.placements (whole.rest part).run.trace := by
  have hwhole := placements_of_ok split.inUse split.inWords split.whole_ok
  have hfront := placements_of_ok split.inUse split.inWords_front split.front_ok
  have hrest := placements_of_ok split.inUse_rest split.inWords_rest split.rest_ok
  rw [Made.isCommit_front, Made.start_front, Made.count_front] at hfront
  rw [Made.isCommit_rest, Made.start_rest, Made.count_rest, split.end_eq, Made.mapper_rest] at hrest
  refine hwhole.trans (Eq.trans ?_ (congr (congrArg _ hfront.symm) hrest.symm))
  by_cases hcommit : whole.call.isCommit = true
  · have turns := split.turns_front
    rw [hcommit] at turns
    have hkind : (whole.front part).after.memoryKind = whole.mapper.memoryKind :=
      Call.run_keeps steady_memoryKind _ _
    rw [if_pos hcommit, if_pos hcommit, if_pos hcommit,
      turns.asked_eq split.inUse.sound hkind (Nat.le_add_right _ _)]
    exact askedFrom_append _ (Nat.le_add_right _ _) (Nat.add_le_add_left split.part_le _)
  · rw [if_neg hcommit, if_neg hcommit, if_neg hcommit]
    rfl

theorem nodes_eq (split : Split whole part) :
    (whole.rest part).after.nodes = whole.after.nodes := by
  rw [Made.nodes_eq, Made.mapper_rest, Made.nodes_eq (whole.front part), Made.mapper_front,
    ← List.foldl_append, ← split.placements_eq, Made.nodes_eq]

/-! ### Counters -/

theorem committedPages_eq (split : Split whole part) :
    (whole.rest part).after.committedPages = whole.after.committedPages :=
  congrArg Bitmap.count split.sameState.store.committed_eq

theorem work_eq (split : Split whole part) :
    (whole.rest part).after.activity.work = whole.after.activity.work := by
  have inUse₁ : (whole.front part).mapper.InUse := split.inUse
  cases hcall : whole.call with
  | commit start count pretoucher =>
    have hcall₁ : (whole.front part).call = .commit start part pretoucher := by
      rw [Made.front, hcall]
      rfl
    have hcall₂ : (whole.rest part).call = .commit (start + part) (count - part) pretoucher := by
      rw [Made.rest, hcall]
      rfl
    have hregions : part + (count - part) = count :=
      Nat.add_sub_cancel' (split.part_le.trans_eq (congrArg Call.count hcall))
    obtain ⟨pages, does, hactivity⟩ :=
      Made.of_commit_ok split.inUse split.inWords split.whole_ok hcall
    obtain ⟨pages₁, does₁, hactivity₁⟩ :=
      Made.of_commit_ok inUse₁ split.inWords_front split.front_ok hcall₁
    obtain ⟨pages₂, does₂, hactivity₂⟩ :=
      Made.of_commit_ok split.inUse_rest split.inWords_rest split.rest_ok hcall₂
    have hpages := Made.moves_add split.committedPages_eq does.pages does₁.pages does₂.pages
    have hplacements : whole.placements =
        (whole.front part).placements + (whole.rest part).placements := by
      rw [Made.placements, split.placements_eq, List.length_append]
      rfl
    have htouched : (whole.front part).after.touched pretoucher pages₂ =
        whole.mapper.touched pretoucher pages₂ := by
      rw [touched, does₁.pretouch_eq]
      rfl
    rw [hactivity₂, Made.mapper_rest, htouched, hactivity₁, Made.mapper_front,
      Activity.work_commit, hregions, hactivity, hplacements, hpages, touched_add]
  | uncommit start count =>
    have hcall₁ : (whole.front part).call = .uncommit start part := by
      rw [Made.front, hcall]
      rfl
    have hcall₂ : (whole.rest part).call = .uncommit (start + part) (count - part) := by
      rw [Made.rest, hcall]
      rfl
    have hregions : part + (count - part) = count :=
      Nat.add_sub_cancel' (split.part_le.trans_eq (congrArg Call.count hcall))
    obtain ⟨pages, does, hactivity, -⟩ :=
      Made.of_uncommit_ok split.inUse split.inWords split.whole_ok hcall
    obtain ⟨pages₁, does₁, hactivity₁, -⟩ :=
      Made.of_uncommit_ok inUse₁ split.inWords_front split.front_ok hcall₁
    obtain ⟨pages₂, does₂, hactivity₂, -⟩ :=
      Made.of_uncommit_ok split.inUse_rest split.inWords_rest split.rest_ok hcall₂
    have hpages := Made.moves_add split.committedPages_eq does.pages does₁.pages does₂.pages
    rw [hactivity₂, Made.mapper_rest, hactivity₁, Made.mapper_front, Activity.work_uncommit,
      hregions, hactivity, hpages]

/-! ### Bytes that read as zero -/

/-- If both parts of a commit report that all they added reads as zero, then so does the whole. -/
theorem reportsZeroes (split : Split whole part) (hcommit : whole.call.isCommit = true)
    (hfront : Effect.ReportsZeroes (whole.front part).run.trace)
    (hrest : Effect.ReportsZeroes (whole.rest part).run.trace) :
    Effect.ReportsZeroes whole.run.trace := by
  have hpart := split.part_le
  have turns := split.turns_front
  obtain ⟨mapper, call⟩ := whole
  cases call with
  | uncommit => cases hcommit
  | commit start count pretoucher =>
    have hfront := (reportsZeroes_iff split.inUse split.inWords_front split.front_ok).mp hfront
    have hrest := (reportsZeroes_iff split.inUse_rest split.inWords_rest split.rest_ok).mp hrest
    refine (reportsZeroes_iff split.inUse split.inWords split.whole_ok).mpr ?_
    intro region hge hlt page hhosts
    rcases Nat.lt_or_ge region (start + part) with hbefore | hbehind
    · exact hfront region hge hbefore page hhosts
    · -- What is pristine where the second part starts was so in front of the first one.
      have hlt : region < start + part + (count - part) := by
        have hpart : part ≤ count := hpart
        omega
      rw [← Strategy.hosts_of_shape_eq turns.shape_eq] at hhosts
      exact turns.oneWay.pristine split.inUse.sound.store_sound split.inUse_rest.sound.store_sound
        (hrest region hbehind hlt page hhosts)

end Split

/-! ## The parts add up -/

/-- A call and its two parts came to their end, and the parts have done together what the call does.
They leave the same regions, references, pages and bytes, they ask for the same placements in the
same order, so that the nodes are the same, and they add the same to all counters but those of the
calls. If both report that all they added reads as zero, then so does the call. -/
structure AddsUp (whole : Made) (part : Nat) : Prop where
  whole_done : whole.outcome = .done
  front_done : (whole.front part).outcome = .done
  rest_done : (whole.rest part).outcome = .done
  sameState : SameState whole.after (whole.rest part).after
  placements_eq : Effect.placements whole.run.trace =
    Effect.placements (whole.front part).run.trace ++
      Effect.placements (whole.rest part).run.trace
  nodes_eq : (whole.rest part).after.nodes = whole.after.nodes
  work_eq : (whole.rest part).after.activity.work = whole.after.activity.work
  reportsZeroes : whole.call.isCommit = true →
    Effect.ReportsZeroes (whole.front part).run.trace →
    Effect.ReportsZeroes (whole.rest part).run.trace → Effect.ReportsZeroes whole.run.trace

variable {whole : Made}

theorem Split.addsUp (split : Split whole part) : AddsUp whole part where
  whole_done := congrArg Outcome.of split.whole_ok
  front_done := congrArg Outcome.of split.front_ok
  rest_done := congrArg Outcome.of split.rest_ok
  sameState := split.sameState
  placements_eq := split.placements_eq
  nodes_eq := split.nodes_eq
  work_eq := split.work_eq
  reportsZeroes := split.reportsZeroes

/-! ## Parts that are granted -/

/-- A part of a call that is in order and whose pages fit comes to its end behind the regions in front
of it, unless it is refused. -/
theorem part_ok {other : Mapper PageSpace} {call : Call} {mid : Nat} (live : other.Live)
    (turns : Turns call.isCommit call.start mid mapper other) (inWords : call.InWords)
    (ready : call.ReadyOn mapper)
    (fits : ∀ region ∈ call.range, ∀ page, mapper.strategy.Hosts page region →
      mapper.store.Fits (page + 1))
    (hmid : call.start ≤ mid) (hstop : mid + count ≤ call.start + call.count)
    (granted : ((call.onRange mid count).run other).Granted) :
    ((call.onRange mid count).run other).result = .ok () := by
  have rest := turns.ready (Call.readyOn_iff.mp ready) hmid (by omega)
  apply live.onRange_ok_of_granted inWords (rest.part (Nat.le_refl mid) (by omega)) _ granted
  intro region hge hlt page hhosts
  rw [Strategy.hosts_of_shape_eq turns.shape_eq] at hhosts
  exact (turns.succeeds.fits_iff _).mpr
    (fits region (Call.mem_range.mpr ⟨by omega, by omega⟩) page hhosts)

section granted

variable (live : whole.mapper.Live) (inWords : whole.call.InWords)
  (ready : whole.call.ReadyOn whole.mapper)
  (fits : ∀ region ∈ whole.call.range, ∀ page, whole.mapper.strategy.Hosts page region →
    whole.mapper.store.Fits (page + 1))
  (hpart : part ≤ whole.call.count)

include live inWords ready fits hpart

theorem Made.front_ok (granted : (whole.front part).run.Granted) :
    (whole.front part).run.result = .ok () :=
  part_ok live (.refl live.sound _ _) inWords ready fits (Nat.le_refl _)
    (Nat.add_le_add_left hpart _) granted

theorem Made.rest_ok (granted : (whole.front part).run.Granted)
    (granted' : (whole.rest part).run.Granted) : (whole.rest part).run.result = .ok () := by
  have follows : Follows PageSpace.Meanwhile whole.mapper (whole.front part).after :=
    .call _ (Call.inWords_onRange inWords _ _)
  have front_ok := Made.front_ok live inWords ready fits hpart granted
  exact part_ok (live.follows follows) (Made.turns_front live.toInUse inWords front_ok) inWords
    ready fits (Nat.le_add_right _ _) (by omega) granted'

/-- Neither part of a call that comes to its end is refused, if its parts are granted what it is. -/
theorem Made.granted_parts (hok : whole.run.result = .ok ())
    (grantsParts : whole.mapper.GrantsParts) :
    (whole.front part).run.Granted ∧ (whole.rest part).run.Granted := by
  have inUse := live.toInUse
  have inWords₁ : (whole.front part).call.InWords := Call.inWords_onRange inWords _ _
  have granted : (whole.front part).run.Granted :=
    granted_part inUse inUse (.refl inUse.sound _ _) rfl grantsParts inWords (Nat.le_refl _)
      (Nat.add_le_add_left hpart _) hok
  have front_ok := Made.front_ok live inWords ready fits hpart granted
  -- The machine is the same behind the first part.
  obtain ⟨_, orderly⟩ := call_orderly inUse.sound inUse.spacious _ inWords₁
  obtain ⟨hrefuses, -⟩ := orderly.stores.refuses_sameLayout inUse.sound.store_sound
  exact ⟨granted, granted_part inUse (inUse.follows (.call _ inWords₁))
    (Made.turns_front inUse inWords front_ok) hrefuses grantsParts inWords (Nat.le_add_right _ _)
    (by omega) hok⟩

end granted

/-- Whatever came before, a call on regions in order for it and inside the used part may be split at
any of its regions. If it is not refused, neither is any of its parts where regions share pages or
the machine grants each part of what it grants. Where the parts are not refused, they add up to the
whole call. -/
theorem split_throughout {settings : Settings} {usedSize : Nat} {memoryKind : MemoryKind}
    {pinned : Bool} {kind : StrategyKind} {machine : Machine} {first : Mapper PageSpace}
    (hfirst : (reserveWith settings usedSize memoryKind pinned kind machine).result = .ok first)
    (hshare : settings.pageSize * settings.commitFactor / settings.regionSize < entryLimit)
    (hplace : kind = .large → ∀ total, machine.place total < Word.addressLimit)
    (h : Reachable PageSpace.Meanwhile first whole.mapper) (inWords : whole.call.InWords)
    (ready : whole.call.ReadyOn whole.mapper)
    (hused : ∀ region ∈ whole.call.range,
      (region + 1) * settings.regionSize ≤ usedSize * settings.commitFactor)
    (granted : whole.run.Granted) (hpart : part ≤ whole.call.count) :
    (whole.mapper.GrantsParts →
      (whole.front part).run.Granted ∧ (whole.rest part).run.Granted) ∧
    ((whole.front part).run.Granted → (whole.rest part).run.Granted → AddsUp whole part) := by
  have live := (live_of_reserveWith hfirst hshare).reachable h
  have fits : ∀ region ∈ whole.call.range, ∀ page, whole.mapper.strategy.Hosts page region →
      whole.mapper.store.Fits (page + 1) :=
    fun region hregion page => fits_of_inside hfirst hplace h (hused region hregion)
  have hok : whole.run.result = .ok () := live.ok_of_granted granted inWords ready fits
  constructor
  · exact Made.granted_parts live inWords ready fits hpart hok
  · intro granted₁ granted₂
    have front_ok := Made.front_ok live inWords ready fits hpart granted₁
    have rest_ok := Made.rest_ok live inWords ready fits hpart granted₁ granted₂
    exact (Split.mk live.toInUse inWords hpart hok front_ok rest_ok).addsUp

/-- One of four regions is committed, and with it the first of their two pages. A commit of the other
three is split on the second page. The first part takes and places this page, and the second part,
which is on the same page, neither. -/
theorem split_of_four_regions :
    ∃ first, (reserveWith .fourRegions 8192 .heap false .small .willing).result = .ok first ∧
      ∃ whole : Made, whole = ⟨((Call.commit 0 1 none).run first).state, .commit 1 3 none⟩ ∧
        AddsUp whole 2 ∧ whole.more committedPages = 1 ∧
        (whole.front 2).more committedPages = 1 ∧ (whole.rest 2).more committedPages = 0 ∧
        Effect.placements (whole.front 2).run.trace = [⟨69632, 4096, 2⟩] ∧
        Effect.placements (whole.rest 2).run.trace = [] := by
  have hviews : ∀ first : Mapper PageSpace,
      (reserveWith .fourRegions 8192 .heap false .small .willing).result = .ok first →
      ∀ whole : Made, whole = ⟨((Call.commit 0 1 none).run first).state, .commit 1 3 none⟩ →
        (whole.mapper.strategy.kind = .small ∧ whole.run.result = .ok ()) ∧
        whole.more committedPages = 1 ∧
        (whole.front 2).more committedPages = 1 ∧ (whole.rest 2).more committedPages = 0 ∧
        Effect.placements (whole.front 2).run.trace = [⟨69632, 4096, 2⟩] ∧
        Effect.placements (whole.rest 2).run.trace = [] := by
    rintro first hfirst whole rfl
    cases hfirst
    exact ⟨by decide +kernel, by decide +kernel, by decide +kernel, by decide +kernel,
      by decide +kernel, by decide +kernel⟩
  obtain ⟨⟨hkind, hok⟩, hviews⟩ := hviews _ rfl _ rfl
  refine ⟨_, rfl, _, rfl, ?_, hviews⟩
  obtain ⟨hgranted, haddsUp⟩ := @split_throughout 2 ⟨_, .commit 1 3 none⟩ .fourRegions 8192 .heap
    false .small .willing _ rfl (by decide) (fun h => by cases h)
    (.single (.call (.commit 0 1 none) (by decide))) (by decide) (Call.readyOn_of_ok hok)
    (by decide) (fun refusal h => by cases hok.symm.trans h) (by decide)
  obtain ⟨hfront, hrest⟩ := hgranted (.inl hkind)
  exact haddsUp hfront hrest

end Mapper

end RegionBacking
