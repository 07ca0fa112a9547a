import Mathlib.Data.List.Forall2

/-!
# Fallible results

What a sequence of computations says of its parts when it succeeds.
-/

namespace RexLang

variable {First Second Error : Type}

theorem exists_of_bind_eq_ok {first : Except Error First} {rest : First → Except Error Second}
    {second : Second} (ran : (first >>= rest) = .ok second) :
    ∃ value, first = .ok value ∧ rest value = .ok second := by
  cases first with
  | error error => cases ran
  | ok value => exact ⟨value, rfl, ran⟩

theorem bind_eq_ok {outcome : Except Error First} {next : First → Except Error Second}
    {result : Second} :
    outcome >>= next = .ok result ↔ ∃ value, outcome = .ok value ∧ next value = .ok result := by
  constructor
  · exact exists_of_bind_eq_ok
  · rintro ⟨value, rfl, found⟩
    exact found

theorem ok_bind (value : First) (next : First → Except Error Second) :
    Except.ok value >>= next = next value :=
  rfl

theorem exists_of_bind_eq_error {first : Except Error First} {rest : First → Except Error Second}
    {error : Error} (failed : first >>= rest = .error error) :
    first = .error error ∨ ∃ value, first = .ok value ∧ rest value = .error error := by
  cases first with
  | error other =>
      cases failed
      exact .inl rfl
  | ok value => exact .inr ⟨value, rfl, failed⟩

/-- Two computations and what is made of their results. -/
theorem bind_bind_eq_ok {Third : Type} {first : Except Error First} {second : Except Error Second}
    {build : First → Second → Third} {result : Third} :
    (do return build (← first) (← second) : Except Error Third) = .ok result ↔
      ∃ one two, first = .ok one ∧ second = .ok two ∧ result = build one two := by
  cases first with
  | error error => exact ⟨fun absurd => (nomatch absurd), fun ⟨_, _, absurd, _⟩ => (nomatch absurd)⟩
  | ok one =>
      cases second with
      | error error =>
          exact ⟨fun absurd => (nomatch absurd), fun ⟨_, _, _, absurd, _⟩ => (nomatch absurd)⟩
      | ok two =>
          constructor
          · rintro ⟨⟩
            exact ⟨one, two, rfl, rfl, rfl⟩
          · rintro ⟨_, _, ⟨⟩, ⟨⟩, rfl⟩
            rfl

theorem bind_return_eq_ok {first : Except Error First} {build : First → Second} {result : Second} :
    (do return build (← first) : Except Error Second) = .ok result ↔
      ∃ one, first = .ok one ∧ result = build one :=
  bind_eq_ok.trans <| exists_congr fun _ => and_congr Iff.rfl
    ⟨fun same => (Except.ok.inj same).symm, fun same => congrArg Except.ok same.symm⟩

theorem exists_of_map_ok {outcome : Except Error First} {change : First → Second} {result : Second}
    (changed : outcome.map change = .ok result) :
    ∃ value, outcome = .ok value ∧ change value = result := by
  cases outcome with
  | error error => cases changed
  | ok value => exact ⟨value, rfl, Except.ok.inj changed⟩

/-- What a traversal that may fail says of the elements. -/
theorem mapM_eq_ok_iff {visit : First → Except Error Second} {values : List First}
    {targets : List Second} : values.mapM visit = .ok targets ↔
      List.Forall₂ (fun value target => visit value = .ok target) values targets := by
  constructor
  · intro mapped
    induction values generalizing targets with
    | nil =>
        cases mapped
        exact .nil
    | cons value values hypothesis =>
        rw [List.mapM_cons] at mapped
        obtain ⟨target, head, mapped⟩ := exists_of_bind_eq_ok mapped
        obtain ⟨rest, tail, mapped⟩ := exists_of_bind_eq_ok mapped
        cases mapped
        exact .cons head (hypothesis tail)
  · intro all
    induction all with
    | nil => rfl
    | cons head _ hypothesis =>
        rw [List.mapM_cons, head]
        exact bind_eq_ok.2 ⟨_, rfl, bind_eq_ok.2 ⟨_, hypothesis, rfl⟩⟩

theorem forall₂_of_mapM {visit : First → Except Error Second} {values : List First}
    {targets : List Second} (mapped : values.mapM visit = .ok targets) :
    List.Forall₂ (fun value target => visit value = .ok target) values targets :=
  mapM_eq_ok_iff.1 mapped

theorem length_eq_of_mapM {visit : First → Except Error Second} {values : List First}
    {targets : List Second} (mapped : values.mapM visit = .ok targets) :
    targets.length = values.length :=
  (forall₂_of_mapM mapped).length_eq.symm

theorem mapM_cons_eq_ok {visit : First → Except Error Second} {value : First} {values : List First}
    {target : Second} {targets : List Second} :
    (value :: values).mapM visit = .ok (target :: targets) ↔
      visit value = .ok target ∧ values.mapM visit = .ok targets := by
  rw [mapM_eq_ok_iff, mapM_eq_ok_iff, List.forall₂_cons]

theorem exists_of_forall₂_mem_left {related : First → Second → Prop} {values : List First}
    {targets : List Second} (all : List.Forall₂ related values targets) {value : First}
    (member : value ∈ values) : ∃ target ∈ targets, related value target := by
  induction all with
  | nil => cases member
  | @cons first second values targets isRelated _ hypothesis =>
      obtain rfl | later := List.mem_cons.mp member
      · exact ⟨second, List.mem_cons_self, isRelated⟩
      · obtain ⟨target, inTargets, areRelated⟩ := hypothesis later
        exact ⟨target, .tail _ inTargets, areRelated⟩

theorem exists_of_forall₂_mem_right {related : First → Second → Prop} {values : List First}
    {targets : List Second} (all : List.Forall₂ related values targets) {target : Second}
    (member : target ∈ targets) : ∃ value ∈ values, related value target :=
  exists_of_forall₂_mem_left all.flip member

theorem forall₂_imp_of_mem {First Second : Type} {related other : First → Second → Prop}
    {values : List First} {targets : List Second}
    (each : ∀ value ∈ values, ∀ target, related value target → other value target)
    (all : List.Forall₂ related values targets) : List.Forall₂ other values targets := by
  induction all with
  | nil => exact .nil
  | @cons value target values targets isRelated _ hypothesis =>
      exact .cons (each value List.mem_cons_self target isRelated)
        (hypothesis fun value member => each value (.tail _ member))

/-- One element exchanged for one with the same targets. -/
theorem forall₂_replace {First Second : Type} {related : First → Second → Prop}
    {before after : List First} {value other : First} {targets : List Second}
    (all : List.Forall₂ related (before ++ value :: after) targets)
    (exchange : ∀ target, related value target → related other target) :
    List.Forall₂ related (before ++ other :: after) targets := by
  induction before generalizing targets with
  | nil =>
      cases all with
      | cons isRelated rest => exact .cons (exchange _ isRelated) rest
  | cons first before hypothesis =>
      cases all with
      | cons isRelated rest => exact .cons isRelated (hypothesis rest)

/-- A traversal whose visits all succeed, and what they say of their targets. -/
theorem exists_mapM_related {visit : First → Except Error Second} {related : First → Second → Prop}
    {values : List First}
    (each : ∀ value ∈ values, ∃ target, visit value = .ok target ∧ related value target) :
    ∃ targets, values.mapM visit = .ok targets ∧ List.Forall₂ related values targets := by
  induction values with
  | nil => exact ⟨[], rfl, .nil⟩
  | cons value values hypothesis =>
      obtain ⟨target, head, isRelated⟩ := each value List.mem_cons_self
      obtain ⟨targets, tail, areRelated⟩ :=
        hypothesis fun other member => each other (.tail _ member)
      exact ⟨target :: targets, mapM_cons_eq_ok.2 ⟨head, tail⟩, .cons isRelated areRelated⟩

theorem exists_mapM_iff {visit : First → Except Error Second} {values : List First} :
    (∃ targets, values.mapM visit = .ok targets) ↔
      ∀ value ∈ values, ∃ target, visit value = .ok target := by
  constructor
  · rintro ⟨targets, mapped⟩ value member
    obtain ⟨target, -, visited⟩ := exists_of_forall₂_mem_left (forall₂_of_mapM mapped) member
    exact ⟨target, visited⟩
  · intro each
    obtain ⟨targets, mapped, -⟩ := @exists_mapM_related _ _ _ visit (fun _ _ => True) _
      fun value member => (each value member).imp fun _ visited => ⟨visited, trivial⟩
    exact ⟨targets, mapped⟩

theorem exists_mapM {visit : First → Except Error Second} {values : List First}
    (each : ∀ value ∈ values, ∃ target, visit value = .ok target) :
    ∃ targets, values.mapM visit = .ok targets :=
  exists_mapM_iff.2 each

/-- What every step keeps holds at the end. -/
theorem foldlM_invariant {State : Type} {step : State → First → Except Error State}
    (invariant : State → Prop) {elements : List First}
    (each : ∀ state element next, invariant state → step state element = .ok next → invariant next)
    {state last : State} (start : invariant state)
    (runs : elements.foldlM step state = .ok last) : invariant last := by
  induction elements generalizing state with
  | nil =>
      cases runs
      exact start
  | cons element elements hypothesis =>
      rw [List.foldlM_cons] at runs
      obtain ⟨middle, head, tail⟩ := exists_of_bind_eq_ok runs
      exact hypothesis (each state element middle start head) tail

/-- A traversal whose visits succeed from every state, and what they say of the origins of
the elements. -/
theorem exists_mapM_run {Origin State : Type} {visit : First → StateT State (Except Error) Second}
    {encoded : Origin → First → Prop} {related : Origin → Second → Prop} {origins : List Origin}
    {values : List First} (encodes : List.Forall₂ encoded origins values)
    (each : ∀ origin ∈ origins, ∀ value, encoded origin value → ∀ state, ∃ target later,
      visit value state = .ok (target, later) ∧ related origin target) (state : State) :
    ∃ targets later, values.mapM visit state = .ok (targets, later) ∧
      List.Forall₂ related origins targets := by
  induction encodes generalizing state with
  | nil => exact ⟨[], state, rfl, .nil⟩
  | @cons origin value origins values isValue _ hypothesis =>
      obtain ⟨target, middle, head, isRelated⟩ :=
        each origin List.mem_cons_self value isValue state
      obtain ⟨targets, later, tail, areRelated⟩ :=
        hypothesis (fun other member => each other (.tail _ member)) middle
      refine ⟨target :: targets, later, ?_, .cons isRelated areRelated⟩
      rw [List.mapM_cons]
      exact bind_eq_ok.mpr ⟨_, head, bind_eq_ok.mpr ⟨_, tail, rfl⟩⟩

end RexLang
