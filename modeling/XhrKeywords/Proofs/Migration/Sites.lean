import XhrKeywords.Migration.Conversion

/-!
# Where legacy calls stand

A tree is walked with each node under its parent. The legacy calls among these nodes, in this
order, are the occurrences that get converted, and a call is a statement of its own exactly when
its parent is a list of statements.
-/

namespace XhrKeywords

open Syntax

namespace Syntax.Node

mutual

/-- All trees of a node in the order of `subtrees`, each with the node that it is a child of. -/
def family (parent : Option Node) : Node → List (Option Node × Node)
  | tree kind span children =>
    (parent, tree kind span children) :: familyAll (some (tree kind span children)) children
  | _ => []

/-- The families of several children of one parent. -/
def familyAll (parent : Option Node) : List Node → List (Option Node × Node)
  | [] => []
  | n :: others => family parent n ++ familyAll parent others

end

mutual

/-- A family has every tree of the node, once and in order. -/
theorem map_snd_family (parent : Option Node) (n : Node) :
    (family parent n).map Prod.snd = subtrees n := by
  match n with
  | absent | leaf _ => simp [family, subtrees]
  | tree kind span children =>
    simp only [family, subtrees, List.map_cons, List.cons.injEq, true_and]
    exact map_snd_familyAll _ children

/-- The families of several nodes have every tree of each of them. -/
theorem map_snd_familyAll (parent : Option Node) (nodes : List Node) :
    (familyAll parent nodes).map Prod.snd = subtreesAll nodes := by
  match nodes with
  | [] => rfl
  | n :: others =>
    simp only [familyAll, subtreesAll, List.map_append]
    rw [map_snd_family parent n, map_snd_familyAll parent others]

end

/-- Whether a parent holds whole statements. -/
def holdsStatements (parent : Option Node) : Bool :=
  (parent.bind kind?).any Kind.isStatementList

end Syntax.Node

namespace Migration

/-- The legacy calls of a tree, each with its parent, in the order of `subtrees`. -/
def sites (tree : Node) : List (Option Node × Node) :=
  (Node.family none tree).filter fun site => isLegacyCall site.2

/-- The sites are all legacy calls of the tree. -/
theorem map_snd_sites (tree : Node) :
    (sites tree).map Prod.snd = tree.subtrees.filter isLegacyCall := by
  rw [← Node.map_snd_family none tree, List.filter_map]
  rfl

/-- The occurrence at a site: its parent decides whether it is a statement of its own. -/
def occurrenceAt (site : Option Node × Node) : Occurrence :=
  ⟨site.2, Node.holdsStatements site.1⟩

mutual

/-- The walk over statements is the walk over families, with parents reduced to what matters. -/
theorem statementTrees_eq (parent : Option Node) (n : Node) :
    statementTrees (Node.holdsStatements parent) n =
      (Node.family parent n).map fun site => (site.2, Node.holdsStatements site.1) := by
  match n with
  | .absent | .leaf _ => simp [statementTrees, Node.family]
  | .tree kind span children =>
    simp only [statementTrees, Node.family, List.map_cons, List.cons.injEq, true_and]
    exact statementTreesAll_eq (some (.tree kind span children)) children

/-- The walks over the children of one parent agree. -/
theorem statementTreesAll_eq (parent : Option Node) (nodes : List Node) :
    statementTreesAll (Node.holdsStatements parent) nodes =
      (Node.familyAll parent nodes).map fun site => (site.2, Node.holdsStatements site.1) := by
  match nodes with
  | [] => rfl
  | n :: others =>
    simp only [statementTreesAll, Node.familyAll, List.map_append]
    rw [statementTrees_eq parent n, statementTreesAll_eq parent others]

end

/-- The occurrences of a tree are those at its sites. -/
theorem occurrences_eq (tree : Node) : occurrences tree = (sites tree).map occurrenceAt := by
  have hwalk := statementTrees_eq none tree
  rw [show Node.holdsStatements none = false from rfl] at hwalk
  rw [occurrences, hwalk, sites, List.filterMap_map, ← List.filterMap_eq_map,
    List.filterMap_filter]
  rfl

/-- The occurrences of a tree are legacy calls of it. -/
theorem call_mem_of_mem_occurrences {tree : Node} {o : Occurrence} (h : o ∈ occurrences tree) :
    o.call ∈ tree.subtrees.filter isLegacyCall := by
  rw [occurrences_eq, List.mem_map] at h
  obtain ⟨site, hsite, rfl⟩ := h
  rw [← map_snd_sites]
  exact List.mem_map_of_mem hsite

end Migration

end XhrKeywords
