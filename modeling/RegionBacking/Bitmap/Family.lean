import RegionBacking.Bitmap.Edit

/-!
# Bitmaps that come from one

A bitmap can be cloned, word by word. The clone is a bitmap of its own, so what is edited later in
one of the two is not edited in the other. A family is a bitmap with all clones that were made of
it and of its clones, in the order in which they were made.
-/

namespace RegionBacking.Bitmap

/-- Another bitmap with the same words. -/
def clone (bitmap : Bitmap) : Bitmap where
  size := bitmap.size
  words := bitmap.words.map fun word => word
  size_words := Array.size_map.trans bitmap.size_words

/-- What is done with a family. -/
inductive Use where
  /-- An edit of the bitmap at a place. -/
  | edit (place : Nat) (change : Edit)
  /-- A clone of the bitmap at a place, which becomes the last of the family. -/
  | clone (place : Nat)
deriving DecidableEq, Repr

/-- Makes an edit or a clone. Where no bitmap is, nothing is done. -/
def Use.make : Use → Op Empty (List Bitmap) Unit
  | edit place change => do
    let family ← Op.get
    match family[place]? with
    | none => pure ()
    | some bitmap =>
      change.make.within (fun _ => bitmap) fun bitmap family => family.set place bitmap
  | clone place => Op.modify fun family => family ++ (family[place]?.map Bitmap.clone).toList

/-- The family of a new bitmap after all that is done with it. A fault ends a use and not what is
done later. -/
def family (size : Nat) (uses : List Use) : List Bitmap :=
  uses.foldl (fun family use => (use.make family).state) [empty size]

end RegionBacking.Bitmap
