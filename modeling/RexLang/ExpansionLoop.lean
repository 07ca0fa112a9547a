import Mathlib.Algebra.Order.Ring.Nat
import Mathlib.Data.Fintype.Card
import Mathlib.Data.List.Forall2
import Mathlib.Data.Set.Finite.Lattice
import Mathlib.Logic.Relation

/-!
# Expansion of a list by successors

A loop runs over a list and appends the successors of every element to the list,
without a check for repetition.  It ends if and only if the successor relation is
well founded below the elements, which for finitely many successors means that no
cycle can be reached; the result lists what can be reached.
-/

namespace RexLang

variable {Element : Type*} (successors : Element → List Element)

/-- The loop from a position of the list; `fuel` bounds the number of steps. -/
def expandFrom : Nat → List Element → Nat → Option (List Element)
  | 0, _, _ => none
  | fuel + 1, elements, index =>
      match elements[index]? with
      | none => some elements
      | some element => expandFrom fuel (elements ++ successors element) (index + 1)

/-- The first element is a successor of the second. -/
def IsSuccessor (next element : Element) : Prop :=
  next ∈ successors element

/-! ## Termination -/

/-- The number of elements that the loop visits from an element on. -/
inductive Weighs : Element → Nat → Prop
  | node {element : Element} {weights : List Nat} :
      List.Forall₂ Weighs (successors element) weights → Weighs element (weights.sum + 1)

variable {successors}

attribute [local simp] expandFrom

theorem exists_weights {elements : List Element}
    (each : ∀ element ∈ elements, ∃ weight, Weighs successors element weight) :
    ∃ weights, List.Forall₂ (Weighs successors) elements weights := by
  induction elements with
  | nil => exact ⟨[], .nil⟩
  | cons element elements hypothesis =>
      obtain ⟨weight, weighs⟩ := each element List.mem_cons_self
      obtain ⟨weights, weigh⟩ := hypothesis fun other member => each other (.tail _ member)
      exact ⟨weight :: weights, .cons weighs weigh⟩

theorem exists_weighs {element : Element} (founded : Acc (IsSuccessor successors) element) :
    ∃ weight, Weighs successors element weight := by
  induction founded with
  | intro element _ hypothesis =>
      obtain ⟨weights, weigh⟩ := exists_weights hypothesis
      exact ⟨weights.sum + 1, .node weigh⟩

/-- Every step takes one from the weight of the elements to come. -/
theorem exists_expandFrom {elements : List Element} {index : Nat} {weights : List Nat}
    (weigh : List.Forall₂ (Weighs successors) (elements.drop index) weights) :
    ∃ result, expandFrom successors (weights.sum + 1) elements index = some result := by
  induction total : weights.sum generalizing elements index weights with
  | zero =>
      cases remaining : elements[index]? with
      | none => exact ⟨elements, by simp [remaining]⟩
      | some element =>
          obtain ⟨bound, rfl⟩ := List.getElem?_eq_some_iff.mp remaining
          rw [List.drop_eq_getElem_cons bound] at weigh
          cases weigh with
          | cons first rest =>
              cases first with
              | node => simp at total
  | succ count hypothesis =>
      cases remaining : elements[index]? with
      | none => exact ⟨elements, by simp [remaining]⟩
      | some element =>
          obtain ⟨bound, rfl⟩ := List.getElem?_eq_some_iff.mp remaining
          rw [List.drop_eq_getElem_cons bound] at weigh
          rw [expandFrom, remaining]
          cases weigh with
          | @cons _ weight _ weights first rest =>
              cases first with
              | @node _ inner children =>
                  have dropped : (elements ++ successors elements[index]).drop (index + 1) =
                      elements.drop (index + 1) ++ successors elements[index] :=
                    List.drop_append_of_le_length bound
                  refine @hypothesis _ _ (weights ++ inner) ?_ ?_
                  · rw [dropped]
                    exact List.rel_append rest children
                  · rw [List.sum_append]
                    rw [List.sum_cons] at total
                    omega

theorem acc_of_expandFrom {fuel : Nat} {elements result : List Element} {index : Nat}
    (ends : expandFrom successors fuel elements index = some result) :
    ∀ element ∈ elements.drop index, Acc (IsSuccessor successors) element := by
  induction fuel generalizing elements index with
  | zero => cases ends
  | succ fuel hypothesis =>
      rw [expandFrom] at ends
      split at ends
      · next beyond =>
          rw [List.getElem?_eq_none_iff] at beyond
          simp [List.drop_eq_nil_iff.mpr beyond]
      · next element found =>
          obtain ⟨bound, rfl⟩ := List.getElem?_eq_some_iff.mp found
          have later := hypothesis ends
          rw [List.drop_append_of_le_length bound] at later
          rw [List.drop_eq_getElem_cons bound]
          intro other member
          rcases List.mem_cons.mp member with rfl | member
          · exact ⟨_, fun next isSuccessor => later next (List.mem_append_right _ isSuccessor)⟩
          · exact later other (List.mem_append_left _ member)

/-- The loop ends if and only if the successor relation is well founded below
every element. -/
theorem exists_expandFrom_iff (elements : List Element) :
    (∃ fuel result, expandFrom successors fuel elements 0 = some result) ↔
      ∀ element ∈ elements, Acc (IsSuccessor successors) element := by
  constructor
  · rintro ⟨fuel, result, ends⟩ element member
    exact acc_of_expandFrom ends element (by simpa using member)
  · intro founded
    obtain ⟨weights, weigh⟩ := exists_weights fun element member =>
      exists_weighs (founded element member)
    obtain ⟨result, ends⟩ := @exists_expandFrom _ successors elements 0 weights weigh
    exact ⟨weights.sum + 1, result, ends⟩

theorem expandFrom_mono {fuel more : Nat} {elements result : List Element} {index : Nat}
    (ends : expandFrom successors fuel elements index = some result) (enough : fuel ≤ more) :
    expandFrom successors more elements index = some result := by
  induction fuel generalizing elements index more with
  | zero => cases ends
  | succ fuel hypothesis =>
      obtain ⟨more, rfl⟩ : ∃ other, more = other + 1 := ⟨more - 1, by omega⟩
      rw [expandFrom] at ends ⊢
      cases found : elements[index]? with
      | none =>
          rw [found] at ends
          exact ends
      | some element =>
          rw [found] at ends
          exact hypothesis ends (by omega)

/-! ## Cycles -/

/-- An element on a cycle is not accessible. -/
theorem not_acc_of_transGen {relation : Element → Element → Prop} {element : Element}
    (founded : Acc relation element) : ¬Relation.TransGen relation element element := by
  replace founded := founded.transGen
  induction founded with
  | intro element _ hypothesis => exact fun cycle => hypothesis element cycle cycle

theorem acc_of_reflTransGen {relation : Element → Element → Prop} {first last : Element}
    (founded : Acc relation last) (path : Relation.ReflTransGen relation first last) :
    Acc relation first := by
  induction path with
  | refl => exact founded
  | tail _ step hypothesis => exact hypothesis (founded.inv step)

/-- Below an element from which finitely many can be reached, a relation is well
founded if and only if no cycle is reached. -/
theorem acc_iff_of_finite {relation : Element → Element → Prop} {element : Element}
    (finite : {other | Relation.ReflTransGen relation other element}.Finite) :
    Acc relation element ↔ ∀ other, Relation.ReflTransGen relation other element →
      ¬Relation.TransGen relation other other := by
  constructor
  · exact fun founded other path => not_acc_of_transGen (acc_of_reflTransGen founded path)
  · intro acyclic
    let below := {other | Relation.ReflTransGen relation other element}
    have : Finite below := finite
    let restricted : below → below → Prop := fun first last =>
      Relation.TransGen relation first.1 last.1
    have : IsTrans below restricted := ⟨fun _ _ _ => Relation.TransGen.trans⟩
    have : Std.Irrefl restricted := ⟨fun other => acyclic other.1 other.2⟩
    have founded : WellFounded restricted := Finite.wellFounded_of_trans_of_irrefl restricted
    have each : ∀ other : below, Acc relation other.1 := by
      intro other
      induction other using founded.induction with
      | _ other hypothesis =>
          refine ⟨_, fun next step => ?_⟩
          exact hypothesis ⟨next, .head step other.2⟩ (.single step)
    exact each ⟨element, .refl⟩

/-! ## The result -/

/-- The loop lists what can be reached from the elements. -/
theorem mem_expandFrom {fuel : Nat} {elements result : List Element} {index : Nat}
    (ends : expandFrom successors fuel elements index = some result)
    (closed : ∀ element ∈ elements.take index, ∀ next ∈ successors element, next ∈ elements)
    (element : Element) :
    element ∈ result ↔ ∃ start ∈ elements,
      Relation.ReflTransGen (IsSuccessor successors) element start := by
  induction fuel generalizing elements index with
  | zero => cases ends
  | succ fuel hypothesis =>
      rw [expandFrom] at ends
      split at ends
      · next beyond =>
          cases ends
          rw [List.getElem?_eq_none_iff] at beyond
          rw [List.take_of_length_le beyond] at closed
          refine ⟨fun member => ⟨element, member, .refl⟩, ?_⟩
          rintro ⟨start, member, path⟩
          induction path with
          | refl => exact member
          | tail _ step pathHypothesis => exact pathHypothesis (closed _ member _ step)
      · next current found =>
          obtain ⟨bound, rfl⟩ := List.getElem?_eq_some_iff.mp found
          rw [hypothesis ends]
          · constructor
            · rintro ⟨start, member, path⟩
              rcases List.mem_append.mp member with member | member
              · exact ⟨start, member, path⟩
              · exact ⟨elements[index], List.getElem_mem bound, path.tail member⟩
            · rintro ⟨start, member, path⟩
              exact ⟨start, List.mem_append_left _ member, path⟩
          · intro other member next isSuccessor
            rw [List.take_append_of_le_length bound, List.take_add_one, found] at member
            rcases List.mem_append.mp member with member | member
            · exact List.mem_append_left _ (closed other member next isSuccessor)
            · have same : other = elements[index] := by simpa using member
              subst same
              exact List.mem_append_right _ isSuccessor

end RexLang
