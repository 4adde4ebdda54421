import VoxelStream.Camera
import VoxelStream.Octree.NodeSet
import VoxelStream.Octree.Tree

/-!
# Visibility queries

A query descends from the root through the cells that pass the pruning tests, and keeps the leaves
whose centre is in range and, if asked to, coarse cells that are far enough away. `Sight` holds the
tests and nothing about how they are made, so that what a search finds can be stated for any tests.
`Sight.explore` lists every node that the search takes from its pending list together with its
verdict on it; what is found is what it keeps.
-/

namespace VoxelStream

/-- The tests that a search makes of a cell. -/
structure Sight where
  /-- The cell's sphere is not wholly outside the view volume. -/
  meets : Node → Bool
  /-- The cell's whole sphere is farther from the viewer than the range. -/
  beyond : Node → Bool
  /-- The cell's centre is within the range. -/
  inRange : Node → Bool
  /-- The cell is far enough from the viewer, for its size, to be kept whole. -/
  distant : Node → Bool

/-- What becomes of a cell. -/
inductive Verdict where
  /-- It is dropped with all that is in it. -/
  | drop
  /-- It is part of the result. -/
  | keep
  /-- Its octants are looked at instead. -/
  | split
deriving DecidableEq, Repr

namespace Sight

/-- The cell is neither out of sight nor out of range. -/
def passes (s : Sight) (n : Node) : Bool := s.meets n && !s.beyond n

/-- The cell belongs to the result if the search comes to it: a leaf by its centre, a larger cell
if it is distant as well. -/
def accepts (s : Sight) (n : Node) : Bool := (n.isLeaf || s.distant n) && s.inRange n

/-- The fate of a cell that the search comes to. -/
def verdict (s : Sight) (n : Node) : Verdict :=
  if !s.passes n then .drop
  else if s.accepts n then .keep
  else if n.isLeaf then .drop
  else .split

/-- Nine to the level: more than the weights of the octants together. -/
def weight (n : Node) : Nat := Nat.pow 9 n.level.toNat

/-- The weight of a pending list bounds the number of steps that it can still take. -/
def load (pending : List Node) : Nat := pending.foldr (fun n sum => weight n + sum) 0

/-- A pending cell adds its weight. -/
theorem load_cons (n : Node) (pending : List Node) :
    load (n :: pending) = weight n + load pending := rfl

/-- The loads of two lists add up. -/
theorem load_append (a b : List Node) : load (a ++ b) = load a + load b := by
  induction a with
  | nil => simp [load]
  | cons n a ih => rw [List.cons_append, load_cons, load_cons, ih, Nat.add_assoc]

/-- Every cell weighs something. -/
theorem weight_pos (n : Node) : 0 < weight n := Nat.pow_pos (by decide)

/-- Without its first cell a list is lighter. -/
theorem load_lt_cons (n : Node) (pending : List Node) : load pending < load (n :: pending) := by
  have := weight_pos n
  rw [load_cons]
  omega

/-- Replacing a cell by its octants makes the pending list lighter. -/
theorem load_children_lt {n : Node} {cs : List Node} (h : n.children = .ok cs)
    (pending : List Node) : load (cs ++ pending) < load (n :: pending) := by
  rw [load_append, load_cons]
  have hlight : ∀ ds : List Node, (∀ d ∈ ds, d.level.toNat + 1 = n.level.toNat) →
      9 * load ds = ds.length * weight n := by
    intro ds hds
    induction ds with
    | nil => simp [load]
    | cons d ds ih =>
      have hrest := ih fun e he => hds e (List.mem_cons_of_mem _ he)
      have hfirst : 9 * weight d = weight n := by
        rw [weight, weight, ← hds d List.mem_cons_self]
        exact Nat.mul_comm ..
      rw [load_cons, List.length_cons, Nat.succ_mul ds.length]
      omega
  have heq := hlight cs fun c hc => Node.mem_children h hc
  have hle := Nat.mul_le_mul_right (weight n) (Node.length_children h)
  have hpos := weight_pos n
  omega

/-- Takes pending cells one by one, puts in their place the octants of those to split, and adds
each, with its verdict, in front of those seen before. -/
def explore (s : Sight) (pending : List Node) (seen : List (Node × Verdict)) :
    Checked (List (Node × Verdict)) :=
  match pending with
  | [] => .ok seen
  | n :: rest =>
    match n.size with
    | .error f => .error f
    | .ok _ =>
      match s.verdict n with
      | .split =>
        match _h : n.children with
        | .error f => .error f
        | .ok octants => s.explore (octants ++ rest) ((n, .split) :: seen)
      | v => s.explore rest ((n, v) :: seen)
termination_by load pending
decreasing_by
  · exact load_children_lt (by assumption) rest
  · exact load_lt_cons n rest

/-- The cells kept among those seen. -/
def kept (seen : List (Node × Verdict)) : List Node :=
  seen.filterMap fun (n, v) => if v = .keep then some n else none

/-- The cells in `root` that the search keeps. -/
def search (s : Sight) (root : Node) : Checked NodeSet := do
  return .ofList (kept (← s.explore [root] []))

end Sight

/-- What a query asks for: the range, and the ratio of distance to size from which on a cell is
kept whole, if any is. -/
structure NodeQuery where
  maxRadius : Float32
  lodFactor : Option Float32 := none
deriving DecidableEq

/-- The tests of a query made by a viewer who sees `frustum`. -/
def Sight.ofView (viewer : Vec3) (frustum : Frustum) (query : NodeQuery) : Sight where
  meets n := frustum.intersects n.ball
  beyond n := query.maxRadius < n.ball.center.distance viewer - n.ball.radius
  inRange n := n.ball.center.distance viewer ≤ query.maxRadius
  distant n :=
    match query.lodFactor with
    | none => false
    | some factor => factor * Word.toFloat32 n.edge ≤ n.ball.center.distance viewer

namespace Tree

/-- The cells of the tree that answer a query. -/
def query (t : Tree) (viewer : Vec3) (frustum : Frustum) (q : NodeQuery) : Checked NodeSet :=
  (Sight.ofView viewer frustum q).search t.root

/-- Every leaf in sight whose centre is within `maxRadius` of the viewer. -/
def findNodes (t : Tree) (viewer : Vec3) (frustum : Frustum) (maxRadius : Float32) :
    Checked NodeSet :=
  t.query viewer frustum { maxRadius }

end Tree
end VoxelStream
