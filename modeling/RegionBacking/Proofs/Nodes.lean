import Mathlib.Data.Finset.Sort
import Mathlib.Order.Interval.Finset.Nat
import RegionBacking.Nodes.Online
import RegionBacking.Proofs.Text

/-!
# Lists of nodes, read and written

A list of nodes is a union of numbers and ranges. What is read off any text is said by its parts
between commas (`Lists`), and it is read as long as there can be room for all that is listed, repeats
counted. A vector never gives room back, so that is told from its room in the end (`Fits`,
`Room.foldlM_extend`). So a set of nodes may be written down in any order, by ranges that overlap or
by single numbers, and what is read is the set in ascending order.
-/

namespace RegionBacking.Nodes

/-! ## Ascending lists -/

theorem eraseReps_loop (id : Nat) (later kept : List Nat) :
    List.eraseRepsBy.loop (· == ·) id later kept = kept.reverse ++ (id :: later).eraseReps := by
  show _ = kept.reverse ++ List.eraseRepsBy.loop (· == ·) id later []
  induction later generalizing id kept with
  | nil => simp [List.eraseRepsBy.loop]
  | cons next later ih =>
    simp only [List.eraseRepsBy.loop]
    split
    · exact ih id kept
    · rw [ih next (id :: kept), ih next [id]]
      simp

/-- Of two neighbours that are equal one is dropped. -/
theorem eraseReps_cons_cons (id next : Nat) (later : List Nat) :
    (id :: next :: later).eraseReps =
      if id = next then (next :: later).eraseReps else id :: (next :: later).eraseReps := by
  show List.eraseRepsBy.loop (· == ·) id (next :: later) [] = _
  simp only [List.eraseRepsBy.loop]
  split
  · next hsame =>
    rw [if_pos (beq_iff_eq.mp hsame), ← beq_iff_eq.mp hsame, eraseReps_loop]
    rfl
  · next hother =>
    rw [if_neg (beq_eq_false_iff_ne.mp hother), eraseReps_loop]
    rfl

theorem mem_eraseReps {ids : List Nat} {id : Nat} : id ∈ ids.eraseReps ↔ id ∈ ids := by
  induction ids with
  | nil => exact Iff.rfl
  | cons first later ih =>
    cases later with
    | nil => exact Iff.rfl
    | cons next later =>
      rw [eraseReps_cons_cons]
      split
      · next hsame => simp [ih, hsame]
      · rw [List.mem_cons, ih, List.mem_cons (a := id) (b := first)]

theorem eraseReps_pairwise_lt {ids : List Nat} (h : ids.Pairwise (· ≤ ·)) :
    ids.eraseReps.Pairwise (· < ·) := by
  induction ids with
  | nil => exact .nil
  | cons first later ih =>
    obtain ⟨hfirst, hlater⟩ := List.pairwise_cons.mp h
    cases later with
    | nil => exact List.pairwise_singleton ..
    | cons next later =>
      rw [eraseReps_cons_cons]
      split
      · exact ih hlater
      · next hne =>
        refine List.pairwise_cons.mpr ⟨fun id hid => ?_, ih hlater⟩
        -- The next number is larger than the first, and no later one is smaller than the next.
        have hnext := hfirst next List.mem_cons_self
        rcases List.mem_cons.mp (mem_eraseReps.mp hid) with rfl | hid
        · omega
        · have hle := (List.pairwise_cons.mp hlater).1 id hid
          omega

/-! ## Room for what is listed -/

/-- How many numbers there are that come in so many at a time. -/
def total (lengths : List Nat) : Nat := lengths.foldr (· + ·) 0

namespace Room

variable {room : Room}

/-- The vector with so many more numbers, however much room it needs for them. -/
def after (room : Room) (more : Nat) : Room :=
  ⟨room.length + more, if room.length + more ≤ room.capacity then room.capacity
    else room.grown (room.length + more)⟩

/-- The room of a vector fits into one allocation. -/
def Allocatable (room : Room) : Prop := room.capacity * idBytes ≤ Word.maxAllocation

instance (room : Room) : Decidable room.Allocatable := inferInstanceAs (Decidable (_ ≤ _))

theorem allocatable_iff : room.Allocatable ↔ room.capacity < 1 <<< 60 := by
  have hallocation : Word.maxAllocation = 1 <<< 63 - 1 := by decide
  rw [Allocatable, idBytes, hallocation]
  omega

/-- There is room for all numbers of a vector, and not for twice as many, if they are not few. -/
structure Tight (room : Room) : Prop where
  length_le : room.length ≤ room.capacity
  capacity_le : room.capacity ≤ max (2 * (room.length - 1)) 4

theorem extend_eq (h : room.Allocatable) (more : Nat) : room.extend more =
    if (room.after more).Allocatable then .ok (room.after more) else .error .capacityOverflow := by
  simp only [extend, after]
  by_cases hroom : room.length + more ≤ room.capacity
  · simp only [if_pos hroom]
    exact (if_pos h).symm
  · simp only [if_neg hroom]
    rfl

theorem capacity_le_after (room : Room) (more : Nat) :
    room.capacity ≤ (room.after more).capacity := by
  simp only [after, grown]
  split <;> omega

/-- A vector never gives room back. -/
theorem capacity_le_foldl_after (room : Room) (lengths : List Nat) :
    room.capacity ≤ (lengths.foldl after room).capacity := by
  induction lengths generalizing room with
  | nil => exact Nat.le_refl _
  | cons more later ih => exact Nat.le_trans (room.capacity_le_after more) (ih _)

theorem Allocatable.of_foldl_after {lengths : List Nat}
    (h : (lengths.foldl after room).Allocatable) : room.Allocatable :=
  Nat.le_trans (Nat.mul_le_mul_right _ (room.capacity_le_foldl_after lengths)) h

/-- So it is the room in the end on which it depends if numbers can be laid out. -/
theorem foldlM_extend (h : room.Allocatable) (lengths : List Nat) :
    lengths.foldlM extend room = if (lengths.foldl after room).Allocatable then
      .ok (lengths.foldl after room) else .error .capacityOverflow := by
  induction lengths generalizing room with
  | nil => exact (if_pos h).symm
  | cons more later ih =>
    rw [List.foldlM_cons, List.foldl_cons, extend_eq h]
    by_cases hafter : (room.after more).Allocatable
    · rw [if_pos hafter]
      exact ih hafter
    · rw [if_neg hafter, if_neg fun hlater => hafter (Allocatable.of_foldl_after hlater)]
      rfl

theorem tight_empty : empty.Tight := ⟨Nat.le_refl 0, Nat.zero_le 4⟩

/-- A vector grows only when there is no room for all its numbers, so twice its room is not much. -/
theorem Tight.after (tight : room.Tight) (more : Nat) : (room.after more).Tight := by
  have hlength := tight.length_le
  have hcapacity := tight.capacity_le
  constructor
  · simp only [Room.after, grown]
    split <;> omega
  · simp only [Room.after, grown]
    split <;> omega

theorem Tight.foldl_after (tight : room.Tight) (lengths : List Nat) :
    (lengths.foldl Room.after room).Tight ∧
      (lengths.foldl Room.after room).length = room.length + total lengths := by
  induction lengths generalizing room with
  | nil => exact ⟨tight, rfl⟩
  | cons more later ih =>
    obtain ⟨hlater, hsum⟩ := ih (tight.after more)
    exact ⟨hlater, hsum.trans (Nat.add_assoc ..)⟩

theorem foldl_after_empty (lengths : List Nat) : (lengths.foldl Room.after empty).Tight ∧
    (lengths.foldl Room.after empty).length = total lengths := by
  obtain ⟨tight, hlength⟩ := tight_empty.foldl_after lengths
  exact ⟨tight, hlength.trans (Nat.zero_add _)⟩

/-- Nothing more needs no room. -/
theorem Tight.after_zero (tight : room.Tight) : room.after 0 = room := by
  rw [Room.after, Nat.add_zero, if_pos tight.length_le]

end Room

/-- There can be room for numbers that come in so many at a time: the vector that takes them in is
still one allocation in the end. -/
def Fits (lengths : List Nat) : Prop := (lengths.foldl Room.after .empty).Allocatable

instance (lengths : List Nat) : Decidable (Fits lengths) := inferInstanceAs (Decidable (_ ≤ _))

/-- Half of the numbers of the largest allocation always fit, and more than all of them never do. -/
theorem fits_of_total_le {lengths : List Nat} (h : total lengths ≤ 1 <<< 59) : Fits lengths := by
  obtain ⟨tight, htotal⟩ := Room.foldl_after_empty lengths
  have hcapacity := tight.capacity_le
  rw [Fits, Room.allocatable_iff]
  omega

theorem total_lt_of_fits {lengths : List Nat} (h : Fits lengths) : total lengths < 1 <<< 60 := by
  obtain ⟨tight, htotal⟩ := Room.foldl_after_empty lengths
  have hlength := tight.length_le
  rw [Fits, Room.allocatable_iff] at h
  omega

/-! ## What a text lists -/

/-- The numbers that a text lists, each as often as it is listed. -/
def listed (text : List Char) : List Nat := (listedRanges text).flatMap IdRange.ids

/-- How many numbers the parts of a text list, in order. -/
def lengths (text : List Char) : List Nat := (listedRanges text).map IdRange.length

theorem total_map_length (ranges : List IdRange) :
    total (ranges.map IdRange.length) = (ranges.flatMap IdRange.ids).length := by
  induction ranges with
  | nil => rfl
  | cons range later ih =>
    rw [List.flatMap_cons, List.length_append, ← ih, IdRange.ids, List.length_range']
    rfl

theorem parseOnline_eq (text : List Char) : parseOnline text =
    if Fits (lengths text) then .ok ((listed text).mergeSort (· ≤ ·)).eraseReps
    else .error .capacityOverflow := by
  have hempty : Room.empty.Allocatable := by decide
  have hrooms := Room.foldlM_extend hempty (lengths text)
  rw [lengths, List.foldlM_map, ← lengths] at hrooms
  rw [parseOnline, hrooms]
  by_cases hfits : Fits (lengths text)
  · rw [if_pos hfits, if_pos (show Room.Allocatable _ from hfits)]
    rfl
  · rw [if_neg hfits, if_neg (show ¬ Room.Allocatable _ from hfits)]
    rfl

/-- What is read is listed, and it ascends. -/
theorem mem_read {ids : List Nat} {id : Nat} :
    id ∈ (ids.mergeSort (· ≤ ·)).eraseReps ↔ id ∈ ids := by
  rw [mem_eraseReps, List.mem_mergeSort]

theorem read_pairwise_lt (ids : List Nat) :
    ((ids.mergeSort (· ≤ ·)).eraseReps).Pairwise (· < ·) := by
  have hsorted := @List.pairwise_mergeSort Nat (fun a b => decide (a ≤ b)) (by simp; omega)
    (by simp; omega) ids
  exact eraseReps_pairwise_lt (by simpa using hsorted)

/-- A part of a list lists a number: it is a numeral of it, or two numerals with a dash between them
that it lies between. What is behind the first dash is the second one. -/
inductive Lists (part : List Char) (id : Nat) : Prop where
  | one (undashed : '-' ∉ part) (denotes : Numeral.Denotes (trim part) id) : Lists part id
  | range (low high : List Char) (first last : Nat) (part_eq : part = low ++ '-' :: high)
    (undashed : '-' ∉ low) (denotes_first : Numeral.Denotes (trim low) first)
    (denotes_last : Numeral.Denotes (trim high) last) (first_le : first ≤ id) (le_last : id ≤ last) :
    Lists part id

theorem partRange?_of_undashed {part : List Char} (undashed : '-' ∉ part) :
    partRange? part = (Numeral.parse? (trim part)).map fun id => ⟨id, id⟩ := by
  rw [partRange?, splitFirst?_eq_none_iff.mpr undashed]

theorem partRange?_of_dash {low : List Char} (undashed : '-' ∉ low) (high : List Char) :
    partRange? (low ++ '-' :: high) = (Numeral.parse? (trim low)).bind fun first =>
      (Numeral.parse? (trim high)).map fun last => ⟨first, last⟩ := by
  have hsplit : splitFirst? '-' (low ++ '-' :: high) = some (low, high) :=
    splitFirst?_eq_some_iff.mpr ⟨rfl, undashed⟩
  simp only [partRange?, hsplit]
  cases Numeral.parse? (trim low) <;> cases Numeral.parse? (trim high) <;> rfl

theorem mem_partRange_iff {part : List Char} {id : Nat} :
    (∃ range, partRange? part = some range ∧ id ∈ range.ids) ↔ Lists part id := by
  simp only [IdRange.mem_ids]
  constructor
  · rintro ⟨range, hrange, hfirst, hlast⟩
    by_cases hdash : '-' ∈ part
    · obtain ⟨low, high, hpart, undashed⟩ := List.eq_append_cons_of_mem hdash
      rw [hpart, partRange?_of_dash undashed] at hrange
      obtain ⟨first, hlow, hrange⟩ := Option.bind_eq_some_iff.mp hrange
      obtain ⟨last, hhigh, rfl⟩ := Option.map_eq_some_iff.mp hrange
      exact .range low high first last hpart undashed (Numeral.parse?_eq_some_iff.mp hlow)
        (Numeral.parse?_eq_some_iff.mp hhigh) hfirst hlast
    · rw [partRange?_of_undashed hdash] at hrange
      obtain ⟨number, hnumber, rfl⟩ := Option.map_eq_some_iff.mp hrange
      obtain rfl : number = id := Nat.le_antisymm hfirst hlast
      exact .one hdash (Numeral.parse?_eq_some_iff.mp hnumber)
  · intro lists
    cases lists with
    | one undashed denotes =>
      refine ⟨⟨id, id⟩, ?_, Nat.le_refl id, Nat.le_refl id⟩
      rw [partRange?_of_undashed undashed, Numeral.parse?_eq_some_iff.mpr denotes]
      rfl
    | range low high first last part_eq undashed denotes_first denotes_last first_le le_last =>
      refine ⟨⟨first, last⟩, ?_, first_le, le_last⟩
      rw [part_eq, partRange?_of_dash undashed, Numeral.parse?_eq_some_iff.mpr denotes_first,
        Numeral.parse?_eq_some_iff.mpr denotes_last]
      rfl

/-- A text lists a number if one of its parts does. White space at its two ends belongs to none. -/
def Names (text : List Char) (id : Nat) : Prop :=
  ∃ part, IsPart ',' (trim text) part ∧ part ≠ [] ∧ Lists part id

theorem mem_listed_iff {text : List Char} {id : Nat} : id ∈ listed text ↔ Names text id := by
  simp only [Names, listed, listedRanges, List.mem_flatMap, List.mem_filterMap, List.mem_filter,
    mem_splitOn_iff, Bool.not_eq_true', List.isEmpty_eq_false_iff, ← mem_partRange_iff]
  constructor
  · rintro ⟨range, ⟨part, ⟨hpart, hne⟩, hrange⟩, hid⟩
    exact ⟨part, hpart, hne, range, hrange, hid⟩
  · rintro ⟨part, hpart, hne, range, hrange, hid⟩
    exact ⟨range, ⟨part, ⟨hpart, hne⟩, hrange⟩, hid⟩

/-- What is read off a text. -/
structure Reads (text : List Char) (ids : List Nat) : Prop where
  ascending : ids.Pairwise (· < ·)
  mem_iff : ∀ id, id ∈ ids ↔ Names text id

theorem reads_of_fits {text : List Char} (h : Fits (lengths text)) :
    ∃ ids, parseOnline text = .ok ids ∧ Reads text ids :=
  ⟨_, (parseOnline_eq text).trans (if_pos h), read_pairwise_lt _,
    fun _ => mem_read.trans mem_listed_iff⟩

/-! ## How sets of nodes are written -/

/-- An entry of a list that is written: a number, or a range, both ends included. -/
inductive Entry where
  | one (id : Nat)
  | span (first last : Nat)
deriving DecidableEq, Repr

namespace Entry

variable {entry : Entry} {entries : List Entry} {id : Nat}

/-- The text of an entry, in decimal digits. -/
def text : Entry → List Char
  | one id => Nat.toDigits 10 id
  | span first last => Nat.toDigits 10 first ++ '-' :: Nat.toDigits 10 last

/-- The nodes that an entry stands for. -/
def ids : Entry → Finset Nat
  | one id => {id}
  | span first last => Finset.Icc first last

/-- How many nodes the entries stand for, one by one. -/
def lengths (entries : List Entry) : List Nat := entries.map fun entry => entry.ids.card

/-- The text of entries with commas between them. -/
def render (entries : List Entry) : List Char := [','].intercalate (entries.map text)

/-- The range that is read for an entry. -/
def range? : Entry → Option IdRange
  | one id => if id < Word.limit then some ⟨id, id⟩ else none
  | span first last =>
    if first < Word.limit ∧ last < Word.limit then some ⟨first, last⟩ else none

/-! ### Characters -/

theorem mem_text {c : Char} (h : c ∈ entry.text) : Numeral.isDigit c = true ∨ c = '-' := by
  cases entry with
  | one id => exact .inl (Numeral.isDigit_of_mem_toDigits h)
  | span first last =>
    rcases List.mem_append.mp h with h | h
    · exact .inl (Numeral.isDigit_of_mem_toDigits h)
    · rcases List.mem_cons.mp h with rfl | h
      · exact .inr rfl
      · exact .inl (Numeral.isDigit_of_mem_toDigits h)

theorem comma_notMem_text : ',' ∉ entry.text := by
  intro h
  rcases mem_text h with h | h
  · cases h
  · cases h

theorem text_ne_nil : entry.text ≠ [] := by
  cases entry with
  | one id => exact Nat.toDigits_ne_nil
  | span first last => simp [text]

theorem isBlank_of_mem_render {c : Char} (h : c ∈ render entries) : isBlank c = false := by
  have hpart : ∀ entry : Entry, c ∈ entry.text → isBlank c = false := by
    intro entry hc
    rcases mem_text hc with hdigit | rfl
    · exact isBlank_of_isDigit hdigit
    · decide
  unfold render at h
  induction entries with
  | nil => cases h
  | cons entry later ih =>
    cases later with
    | nil => exact hpart entry (by simpa using h)
    | cons next later =>
      rw [List.map_cons, List.map_cons, List.intercalate_cons_cons, List.append_assoc,
        List.mem_append, List.mem_append, List.mem_singleton] at h
      rcases h with h | rfl | h
      · exact hpart entry h
      · decide
      · exact ih h

/-! ### Reading what is written -/

theorem trim_toDigits (n : Nat) : trim (Nat.toDigits 10 n) = Nat.toDigits 10 n := by
  have htrim : trim (Nat.toDigits 10 n ++ []) = Nat.toDigits 10 n :=
    trim_append (fun c hc => isBlank_of_isDigit (Numeral.isDigit_of_mem_toDigits hc)) nofun
  rwa [List.append_nil] at htrim

theorem parse?_toDigits (n : Nat) : Numeral.parse? (trim (Nat.toDigits 10 n)) =
    if n < Word.limit then some n else none := by
  rw [trim_toDigits]
  split
  · next hlt => exact Numeral.parse?_eq_some_iff.mpr (Numeral.denotes_toDigits_iff.mpr ⟨rfl, hlt⟩)
  · next hge =>
    refine Option.eq_none_iff_forall_ne_some.mpr fun value hvalue => ?_
    exact hge (Numeral.denotes_toDigits_iff.mp (Numeral.parse?_eq_some_iff.mp hvalue)).2

theorem dash_notMem_toDigits (n : Nat) : '-' ∉ Nat.toDigits 10 n := by
  intro h
  cases Numeral.isDigit_of_mem_toDigits h

theorem partRange?_text (entry : Entry) : partRange? entry.text = entry.range? := by
  cases entry with
  | one id =>
    rw [text, partRange?_of_undashed (dash_notMem_toDigits id), parse?_toDigits, range?]
    split <;> rfl
  | span first last =>
    rw [text, partRange?_of_dash (dash_notMem_toDigits first), parse?_toDigits, parse?_toDigits,
      range?]
    by_cases hfirst : first < Word.limit <;> by_cases hlast : last < Word.limit <;>
      simp [hfirst, hlast]

/-- The parts of a text that is written are the texts of its entries. -/
theorem listedRanges_render (entries : List Entry) {blank : List Char}
    (hblank : ∀ c ∈ blank, isBlank c = true) :
    listedRanges (render entries ++ blank) = entries.filterMap range? := by
  rw [listedRanges, trim_append (fun c hc => isBlank_of_mem_render hc) hblank]
  cases entries with
  | nil => rfl
  | cons entry later =>
    have hcomma : ∀ part ∈ (entry :: later).map text, ',' ∉ part := by
      intro part hpart
      obtain ⟨other, -, rfl⟩ := List.mem_map.mp hpart
      exact comma_notMem_text
    have hparts : ((entry :: later).map text).filter (fun part => !part.isEmpty) =
        (entry :: later).map text := by
      refine List.filter_eq_self.mpr fun part hpart => ?_
      obtain ⟨other, -, rfl⟩ := List.mem_map.mp hpart
      simp [text_ne_nil]
    rw [render, List.splitOn_intercalate ',' hcomma (by simp), hparts, List.filterMap_map]
    exact List.filterMap_congr fun other _ => partRange?_text other

/-- Of nodes that are words an entry is read as its range, or it has none. -/
theorem range?_cases (h : ∀ id ∈ entry.ids, id < Word.limit) :
    (∃ range, entry.range? = some range ∧ entry.ids = Finset.Icc range.first range.last) ∨
      entry.range? = none ∧ entry.ids = ∅ := by
  cases entry with
  | one id =>
    have hid : id < Word.limit := h id (Finset.mem_singleton_self id)
    exact .inl ⟨⟨id, id⟩, if_pos hid, (Finset.Icc_self id).symm⟩
  | span first last =>
    by_cases hwords : first < Word.limit ∧ last < Word.limit
    · exact .inl ⟨⟨first, last⟩, if_pos hwords, rfl⟩
    · refine .inr ⟨if_neg hwords, Finset.Icc_eq_empty fun hle => hwords ⟨?_, ?_⟩⟩
      · exact h first (Finset.left_mem_Icc.mpr hle)
      · exact h last (Finset.right_mem_Icc.mpr hle)

theorem mem_ids_iff (h : ∀ id ∈ entry.ids, id < Word.limit) :
    id ∈ entry.ids ↔ ∃ range, entry.range? = some range ∧ id ∈ range.ids := by
  rcases range?_cases h with ⟨range, hrange, hids⟩ | ⟨hrange, hids⟩
  · simp [hrange, hids, IdRange.mem_ids]
  · simp [hrange, hids]

theorem mem_flatMap_iff (h : ∀ entry ∈ entries, ∀ id ∈ entry.ids, id < Word.limit) :
    id ∈ (entries.filterMap range?).flatMap IdRange.ids ↔ ∃ entry ∈ entries, id ∈ entry.ids := by
  rw [List.mem_flatMap]
  constructor
  · rintro ⟨range, hrange, hid⟩
    obtain ⟨entry, hentry, hrange⟩ := List.mem_filterMap.mp hrange
    exact ⟨entry, hentry, (mem_ids_iff (h entry hentry)).mpr ⟨range, hrange, hid⟩⟩
  · rintro ⟨entry, hentry, hid⟩
    obtain ⟨range, hrange, hid⟩ := (mem_ids_iff (h entry hentry)).mp hid
    exact ⟨range, List.mem_filterMap.mpr ⟨entry, hentry, hrange⟩, hid⟩

/-- An entry that stands for no node takes no room, whether it is read as a range or not. -/
theorem foldl_after_lengths (h : ∀ entry ∈ entries, ∀ id ∈ entry.ids, id < Word.limit)
    {room : Room} (tight : room.Tight) :
    ((entries.filterMap range?).map IdRange.length).foldl Room.after room =
      (lengths entries).foldl Room.after room := by
  induction entries generalizing room with
  | nil => rfl
  | cons entry later ih =>
    have hlater := fun other hother => h other (List.mem_cons_of_mem entry hother)
    rw [lengths, List.map_cons, List.foldl_cons, ← lengths]
    rcases range?_cases (h entry List.mem_cons_self) with ⟨range, hrange, hids⟩ | ⟨hrange, hids⟩
    · have hlength : entry.ids.card = range.length := by rw [hids, Nat.card_Icc, IdRange.length]
      rw [List.filterMap_cons_some hrange, List.map_cons, List.foldl_cons, hlength]
      exact ih hlater (tight.after _)
    · rw [List.filterMap_cons_none hrange, hids, Finset.card_empty, tight.after_zero]
      exact ih hlater tight

end Entry

/-! ## Reading -/

/-- As long as there can be room for all that a text lists, what is read is the ascending list of the
numbers of its parts; otherwise it is a fault. There can be room for half of the numbers of the
largest allocation, however they are listed, and for more than that it depends on how the vector
grows. So however a set of nodes is written down, by numbers and ranges in any order that may
overlap, with white space behind, what is read is the set. -/
theorem node_lists_read :
    (∀ text, Fits (lengths text) → ∃ ids, parseOnline text = .ok ids ∧ Reads text ids) ∧
    (∀ text, ¬ Fits (lengths text) → parseOnline text = .error .capacityOverflow) ∧
    (∀ text, total (lengths text) = (listed text).length) ∧
    (∀ counts : List Nat, (total counts ≤ 1 <<< 59 → Fits counts) ∧
      (Fits counts → total counts < 1 <<< 60)) ∧
    (∀ (set : Finset Nat) (entries : List Entry) (blank : List Char),
      (∀ id, id ∈ set ↔ ∃ entry ∈ entries, id ∈ entry.ids) → (∀ id ∈ set, id < Word.limit) →
      (∀ c ∈ blank, isBlank c = true) → Fits (Entry.lengths entries) →
      parseOnline (Entry.render entries ++ blank) = .ok set.sort) := by
  refine ⟨fun _ => reads_of_fits, fun text h => (parseOnline_eq text).trans (if_neg h),
    fun _ => total_map_length _, fun _ => ⟨fits_of_total_le, total_lt_of_fits⟩,
    fun set entries blank hset hwords hblank hfits => ?_⟩
  have hids : ∀ entry ∈ entries, ∀ id ∈ entry.ids, id < Word.limit := fun entry hentry id hid =>
    hwords id ((hset id).mpr ⟨entry, hentry, hid⟩)
  have hranges := Entry.listedRanges_render entries hblank
  have hroom : Fits (lengths (Entry.render entries ++ blank)) := by
    rw [Fits, lengths, hranges, Entry.foldl_after_lengths hids Room.tight_empty]
    exact hfits
  rw [parseOnline_eq, if_pos hroom]
  -- Both lists ascend, and they have the same numbers.
  refine congrArg Except.ok ((read_pairwise_lt _).eq_of_mem_iff set.sortedLT_sort.pairwise ?_)
  intro id
  rw [mem_read, listed, hranges, Entry.mem_flatMap_iff hids, Finset.mem_sort, hset]

/-- For one number more than half of the largest allocation a full vector grows beyond it. -/
example : parseOnline "0-576460752303423487,7".toList = .error .capacityOverflow := rfl

/-- A text with every kind of part: blanks, signs, an empty part, one that is none, two dashes and a
range that ends below its start. And a set that is written by ranges that overlap. -/
theorem node_lists_read_of_overlap :
    (∃ ids, parseOnline " 5-6,1, +3 - 4 ,x,,7-6,2-3-4,4\n".toList = .ok ids ∧
      ids = [1, 3, 4, 5, 6] ∧ Reads " 5-6,1, +3 - 4 ,x,,7-6,2-3-4,4\n".toList ids) ∧
    parseOnline (Entry.render [.span 2 4, .one 0, .span 3 3] ++ ['\n']) =
      .ok ({0, 2, 3, 4} : Finset Nat).sort := by
  obtain ⟨hreads, -, -, -, hwritten⟩ := node_lists_read
  constructor
  · have hlisted : listed " 5-6,1, +3 - 4 ,x,,7-6,2-3-4,4\n".toList = [5, 6, 1, 3, 4, 4] := by
      decide +kernel
    obtain ⟨ids, hids, reads⟩ := hreads " 5-6,1, +3 - 4 ,x,,7-6,2-3-4,4\n".toList
      (by decide +kernel)
    refine ⟨ids, hids, reads.ascending.eq_of_mem_iff (by simp) fun id => ?_, reads⟩
    rw [reads.mem_iff, ← mem_listed_iff, hlisted]
    simp
    omega
  · refine hwritten _ _ _ (fun id => ?_) (by decide) (List.forall_mem_singleton.mpr rfl) (by decide)
    simp [Entry.ids]
    omega

/-- There is no room for the numbers of all words, so a text that lists them is not read. -/
theorem all_words_not_read :
    parseOnline "0-18446744073709551615".toList = .error .capacityOverflow ∧
    ¬ ∃ ids, parseOnline "0-18446744073709551615".toList = .ok ids := by
  have hfault : parseOnline "0-18446744073709551615".toList = .error .capacityOverflow := by
    rfl
  refine ⟨hfault, ?_⟩
  rintro ⟨ids, hids⟩
  rw [hfault] at hids
  cases hids

end RegionBacking.Nodes
