/-!
# Cutting a text in two

A text is cut at the first occurrence of a character, which belongs to neither part.
`splitFirst?_eq_some_iff` says that the two parts are thereby determined.
-/

namespace RegionBacking

/-- The parts of a text before and behind the first occurrence of a character. -/
def splitFirst? (separator : Char) : List Char → Option (List Char × List Char)
  | [] => none
  | c :: rest =>
    if c = separator then some ([], rest)
    else (splitFirst? separator rest).map fun (before, behind) => (c :: before, behind)

theorem splitFirst?_eq_some_iff {separator : Char} {text before behind : List Char} :
    splitFirst? separator text = some (before, behind) ↔
      text = before ++ separator :: behind ∧ separator ∉ before := by
  induction text generalizing before with
  | nil => simp [splitFirst?]
  | cons c rest ih =>
    by_cases h : c = separator
    · subst h
      cases before with
      | nil => simp [splitFirst?]
      | cons d before =>
        simp only [splitFirst?, if_true, List.cons_append, List.cons.injEq, List.mem_cons]
        constructor
        · intro h
          simp at h
        · rintro ⟨⟨rfl, _⟩, h⟩
          exact absurd (Or.inl rfl) h
    · cases before with
      | nil =>
        simp [splitFirst?, h]
      | cons d before =>
        simp only [splitFirst?, h, if_false, Option.map_eq_some_iff, Prod.exists, Prod.mk.injEq,
          List.cons.injEq, List.cons_append, List.mem_cons, not_or]
        constructor
        · rintro ⟨before', behind', found, ⟨rfl, rfl⟩, rfl⟩
          obtain ⟨rfl, absent⟩ := ih.1 found
          exact ⟨⟨rfl, rfl⟩, fun same => h same.symm, absent⟩
        · rintro ⟨⟨rfl, rfl⟩, _, absent⟩
          exact ⟨before, behind, ih.2 ⟨rfl, absent⟩, ⟨rfl, rfl⟩, rfl⟩

theorem splitFirst?_eq_none_iff {separator : Char} {text : List Char} :
    splitFirst? separator text = none ↔ separator ∉ text := by
  induction text with
  | nil => simp [splitFirst?]
  | cons c rest ih =>
    by_cases h : c = separator
    · simp [splitFirst?, h]
    · simp [splitFirst?, h, ih, Ne.symm h]

end RegionBacking
