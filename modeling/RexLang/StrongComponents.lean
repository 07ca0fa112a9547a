import Mathlib.Data.List.Nodup
import Mathlib.Data.List.Pairwise
import Mathlib.Logic.Relation

/-!
# Strongly connected components

The components of a graph in an order in which edges only lead to the same or to an earlier
component, and how such an order grows by one component.
-/

namespace RexLang

variable {Node : Type} {edge : Node → Node → Prop}

/-- Each of two nodes reaches the other. -/
def MutuallyReachable (edge : Node → Node → Prop) (first second : Node) : Prop :=
  Relation.ReflTransGen edge first second ∧ Relation.ReflTransGen edge second first

/-- Lists that are the components of their nodes, each after those it has edges to. -/
structure ComponentOrder (edge : Node → Node → Prop) (components : List (List Node)) : Prop where
  nonempty : ∀ component ∈ components, component ≠ []
  nodup : components.flatten.Nodup
  mem_iff : ∀ component ∈ components, ∀ first ∈ component, ∀ second,
    second ∈ component ↔ MutuallyReachable edge first second
  edges : ∀ before component after, components = before ++ component :: after →
    ∀ first ∈ component, ∀ second, edge first second →
      second ∈ component ∨ second ∈ before.flatten

theorem ComponentOrder.nil : ComponentOrder edge [] where
  nonempty := by simp
  nodup := by simp
  mem_iff := by simp
  edges before component after parts := by simp at parts

namespace ComponentOrder

variable {components : List (List Node)}

/-- Nothing outside the components is reached from them. -/
theorem closed (order : ComponentOrder edge components) {first second : Node}
    (member : first ∈ components.flatten) (path : Relation.ReflTransGen edge first second) :
    second ∈ components.flatten := by
  induction path with
  | refl => exact member
  | tail _ step hypothesis =>
      obtain ⟨component, isComponent, inside⟩ := List.mem_flatten.mp hypothesis
      obtain ⟨before, after, rfl⟩ := List.append_of_mem isComponent
      rw [List.flatten_append, List.flatten_cons, List.mem_append, List.mem_append]
      exact (order.edges before component after rfl _ inside _ step).elim (.inr ∘ .inl) .inl

/-- A path from further nodes stays among them until it enters a component for good. -/
theorem stays (order : ComponentOrder edge components) {nodes : List Node}
    (edges : ∀ first ∈ nodes, ∀ second, edge first second →
      second ∈ nodes ∨ second ∈ components.flatten)
    {first second : Node} (member : first ∈ nodes)
    (path : Relation.ReflTransGen edge first second) :
    second ∈ nodes ∨ second ∈ components.flatten := by
  induction path with
  | refl => exact .inl member
  | tail _ step hypothesis =>
      obtain here | earlier := hypothesis
      · exact edges _ here _ step
      · exact .inr (order.closed earlier (.single step))

/-- A new component comes last, when its edges lead to it or to the others. -/
theorem concat (order : ComponentOrder edge components) {component : List Node}
    (nonempty : component ≠ []) (nodup : component.Nodup)
    (isNew : ∀ node ∈ component, node ∉ components.flatten)
    (connected : ∀ first ∈ component, ∀ second ∈ component, Relation.ReflTransGen edge first second)
    (edges : ∀ first ∈ component, ∀ second, edge first second →
      second ∈ component ∨ second ∈ components.flatten) :
    ComponentOrder edge (components ++ [component]) where
  nonempty other member := by
    obtain earlier | isLast := List.mem_append.mp member
    · exact order.nonempty other earlier
    · exact List.mem_singleton.mp isLast ▸ nonempty
  nodup := by
    rw [List.flatten_append, List.flatten_singleton]
    exact order.nodup.append nodup fun node earlier inside => isNew node inside earlier
  mem_iff other member first inside second := by
    obtain earlier | isLast := List.mem_append.mp member
    · exact order.mem_iff other earlier first inside second
    obtain rfl := List.mem_singleton.mp isLast
    constructor
    · exact fun also => ⟨connected first inside second also, connected second also first inside⟩
    · rintro ⟨path, back⟩
      have stays := order.stays edges inside path
      exact stays.resolve_right fun earlier => isNew first inside (order.closed earlier back)
  edges before other after parts first inside second step := by
    obtain rfl | ⟨rest, last, rfl⟩ := after.eq_nil_or_concat
    · obtain ⟨rfl, same⟩ := List.append_inj' parts rfl
      obtain rfl := List.cons.inj same |>.1
      exact edges first inside second step
    · rw [List.concat_eq_append, ← List.cons_append, ← List.append_assoc] at parts
      obtain ⟨rfl, -⟩ := List.append_inj' parts rfl
      exact order.edges before other rest rfl first inside second step

/-- No node is in two components. -/
theorem eq_of_mem (order : ComponentOrder edge components) {first second : List Node}
    (isFirst : first ∈ components) (isSecond : second ∈ components) {node : Node}
    (inFirst : node ∈ first) (inSecond : node ∈ second) : first = second := by
  by_contra different
  have symmetric : Std.Symm (List.Disjoint (α := Node)) := ⟨fun _ _ => List.disjoint_symm⟩
  have disjoint := (List.nodup_flatten.mp order.nodup).2.forall isFirst isSecond different
  exact disjoint inFirst inSecond

end ComponentOrder

end RexLang
