import RegionBacking.PageStore
import Std.Data.TreeSet.Basic

/-!
# Scripted stores

A page store without memory behind it. It keeps which pages are committed and refuses by a script:
a commit that meets a page of one list, an uncommit that meets a page of another one. A refused call
changes nothing. A third list names the pages that do not read as zero.
-/

namespace RegionBacking

/-- A page store that refuses by a script. -/
structure ScriptedStore where
  reservedSize : Nat
  pageSize : Nat
  /-- The first address of the first page. -/
  base : Nat
  /-- Whether committed pages read as zero at all. -/
  zeroFilled : Bool
  /-- Pages that do not read as zero. -/
  dirtyPages : List Nat
  /-- Pages that are not committed. -/
  failCommit : List Nat
  /-- Pages that are not uncommitted. -/
  failUncommit : List Nat
  /-- The pages that are committed. -/
  committed : Std.TreeSet Nat

namespace ScriptedStore

/-- The least page of a list that lies in the range of `count` pages from `start`. -/
def firstIn? (pages : List Nat) (start count : Nat) : Option Nat :=
  (pages.filter fun page => decide (start ≤ page ∧ page < start + count)).min?

/-- The first address of a page. -/
def pageStart (store : ScriptedStore) (page : Nat) : Except Fault Nat := do
  let offset ← Word.mul page store.pageSize
  Word.add store.base offset

/-- The pages from `start` on before the first of them that is committed, `count` at most. -/
def freshPages (store : ScriptedStore) (start count : Nat) : List Nat :=
  (List.range' start count).takeWhile fun page => !store.committed.contains page

/-- Marks pages as committed, up to the first that is so already. -/
def acquire (start count : Nat) : Op Refusal ScriptedStore Unit := do
  let store ← Op.get
  let fresh := store.freshPages start count
  Op.modify fun store => { store with committed := fresh.foldl (·.insert ·) store.committed }
  Op.require (decide (count ≤ fresh.length)) (.pageCommittedTwice (start + fresh.length))

/-- Commits pages unless the script refuses one of them. -/
def commit (start count : Nat) : Op Refusal ScriptedStore Bool := do
  let store ← Op.get
  match firstIn? store.failCommit start count with
  | some page => Op.refuse (.outOfMemory (count * store.pageSize) page)
  | none =>
    acquire start count
    pure (store.zeroFilled && (firstIn? store.dirtyPages start count).isNone)

/-- Uncommits pages unless the script refuses one of them. -/
def uncommit (start count : Nat) : Op Refusal ScriptedStore Unit := do
  let store ← Op.get
  match firstIn? store.failUncommit start count with
  | some page => Op.refuse (.uncommit (.page page))
  | none =>
    Op.modify fun store =>
      { store with committed := (List.range' start count).foldl (·.erase ·) store.committed }

/-- The committed pages, in ascending order. -/
def committedPages (store : ScriptedStore) : List Nat :=
  store.committed.toList

instance : PageStore ScriptedStore where
  reservedSize := reservedSize
  pageSize := pageSize
  pageStart := pageStart
  commit := commit
  uncommit := uncommit
  pretouch start count pretoucher := do
    let store ← Op.get
    pretoucher.run start count store.pageSize (fun _ => none) fun store _ => store

end ScriptedStore

end RegionBacking
