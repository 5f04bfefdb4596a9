import TextDecoration.Buffer
import TextDecoration.Proofs.Range.Projection

/-!
# Ranges of a document

A document's ranges stand in one list, but the node that a range belongs to can be told from its
path. So the ranges of each node can be taken out of the list again, and since those of one node
do not overlap, no two ranges of the document cover the same character of the same node. All that
is needed is that nodes have different paths, as the lines of a buffer do.
-/

namespace TextDecoration

namespace Decorator

/-- Every range of a node has the node's path. A range thus tells which line it is on. -/
theorem path_of_mem_decorateNode {decorator : Decorator} {path : NodePath} {text : String}
    {range : Range} (among : range ∈ decorator.decorateNode path text) : range.path = path := by
  rw [decorateNode, project, projectFrom_eq] at among
  obtain ⟨place, _, rfl⟩ := List.mem_map.mp among
  rfl

/-- The ranges of a node do not overlap and come in order. They may touch each other. -/
theorem decorateNode_apart (decorator : Decorator) (path : NodePath) (text : String) :
    (decorator.decorateNode path text).Pairwise fun earlier later => earlier.stop ≤ later.start :=
  project_ascending path decorator.policy _

/-- The ranges of a node come in order of their starts, which is the order that painting relies
on. -/
theorem decorateNode_ascending (decorator : Decorator) (path : NodePath) (text : String) :
    (decorator.decorateNode path text).Pairwise fun earlier later =>
      earlier.start ≤ later.start := by
  refine (decorator.decorateNode_apart path text).imp_of_mem fun here _ passed => ?_
  exact Nat.le_trans (project_inside here).1 passed

/-- Ranges of one path do not overlap in the list of a whole document. Those of different paths
belong to different texts, and their offsets have nothing to do with each other. -/
theorem decorate_apart (decorator : Decorator) {nodes : List TextNode}
    (distinct : nodes.Pairwise fun first second => first.path ≠ second.path) :
    (decorator.decorate nodes).Pairwise fun earlier later =>
      earlier.path = later.path → earlier.stop ≤ later.start := by
  rw [decorate, List.pairwise_flatMap]
  constructor
  · intro node _
    refine (decorator.decorateNode_apart node.path node.text).imp ?_
    exact fun passed _ => passed
  · refine distinct.imp fun different earlier here later there same => ?_
    rw [path_of_mem_decorateNode here, path_of_mem_decorateNode there] at same
    exact absurd same different

/-- The ranges with a node's path are that node's ranges, where no other node has the path. Nothing
else of the document can get among them. -/
theorem filter_decorate (decorator : Decorator) {nodes : List TextNode}
    (distinct : nodes.Pairwise fun first second => first.path ≠ second.path) {node : TextNode}
    (member : node ∈ nodes) :
    (decorator.decorate nodes).filter (fun range => range.path = node.path) =
      decorator.decorateNode node.path node.text := by
  have own : (decorator.decorateNode node.path node.text).filter
      (fun range => range.path = node.path) = decorator.decorateNode node.path node.text :=
    List.filter_eq_self.mpr fun range among => decide_eq_true (path_of_mem_decorateNode among)
  have foreign {other : TextNode} (different : other.path ≠ node.path) :
      (decorator.decorateNode other.path other.text).filter
        (fun range => range.path = node.path) = [] := by
    refine List.filter_eq_nil_iff.mpr fun range among => ?_
    rw [path_of_mem_decorateNode among]
    simpa using different
  induction nodes with
  | nil => cases member
  | cons first later inductionHypothesis =>
    obtain ⟨differs, distinctLater⟩ := List.pairwise_cons.mp distinct
    have split : decorator.decorate (first :: later) =
        decorator.decorateNode first.path first.text ++ decorator.decorate later :=
      List.flatMap_cons
    rw [split, List.filter_append]
    rcases List.mem_cons.mp member with rfl | behind
    · have rest : (decorator.decorate later).filter (fun range => range.path = node.path) = [] := by
        rw [decorate, List.filter_flatMap, List.flatMap_eq_nil_iff]
        exact fun other among => foreign (Ne.symm (differs other among))
      rw [own, rest, List.append_nil]
    · rw [foreign (differs node behind), inductionHypothesis distinctLater behind,
        List.nil_append]

end Decorator

namespace Buffer

/-- Each text node is a line with its index, counted from the first one's on. -/
theorem nodesFrom_eq (index : Nat) (lines : List String) :
    nodesFrom index lines = (lines.zipIdx index).map fun line => ⟨[line.2, 0], line.1⟩ := by
  induction lines generalizing index with
  | nil => rfl
  | cons text later inductionHypothesis =>
    rw [nodesFrom, inductionHypothesis, List.zipIdx_cons, List.map_cons]

/-- The paths of lines from an index on do not lie before it, and have the form of a path to a
line's text. -/
theorem path_of_mem_nodesFrom {index : Nat} {lines : List String} {node : TextNode}
    (member : node ∈ nodesFrom index lines) : ∃ n, index ≤ n ∧ node.path = [n, 0] := by
  rw [nodesFrom_eq] at member
  obtain ⟨⟨text, n⟩, place, rfl⟩ := List.mem_map.mp member
  exact ⟨n, (List.mem_zipIdx place).1, rfl⟩

/-- Lines have different paths, also where their texts are the same. -/
theorem nodesFrom_distinct (index : Nat) (lines : List String) :
    (nodesFrom index lines).Pairwise fun first second => first.path ≠ second.path := by
  induction lines generalizing index with
  | nil => exact List.Pairwise.nil
  | cons text later inductionHypothesis =>
    refine List.pairwise_cons.mpr ⟨fun node member same => ?_, inductionHypothesis (index + 1)⟩
    obtain ⟨n, behind, path⟩ := path_of_mem_nodesFrom member
    rw [path] at same
    obtain ⟨rfl, _⟩ := List.cons.inj same
    exact absurd behind (Nat.not_succ_le_self index)

/-- The text nodes of a buffer are its lines with their indices, from zero on and in order. -/
theorem textNodes_eq (buffer : Buffer) :
    buffer.textNodes = buffer.lines.zipIdx.map fun line => ⟨[line.2, 0], line.1⟩ :=
  nodesFrom_eq 0 buffer.lines

/-- The text nodes of a buffer have different paths, so a range leads back to one of them. -/
theorem textNodes_distinct (buffer : Buffer) :
    buffer.textNodes.Pairwise fun first second => first.path ≠ second.path :=
  nodesFrom_distinct 0 buffer.lines

end Buffer

end TextDecoration
