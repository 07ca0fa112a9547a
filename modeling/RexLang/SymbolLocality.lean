import Mathlib.Data.List.Forall2
import RexLang.BacktrackingRegex

/-!
# Matches that stop at a symbol

An expression that never consumes a symbol of a class, and whose assertions take such a symbol
for the end of the input, matches in the same ways whatever follows the first one.
-/

namespace LeftmostFirst

variable {α ν : Type} (stops : α → Bool)

/-- Two inputs that are the same up to a symbol of the class, or up to the end. -/
inductive SameUntil : List α → List α → Prop
  | stop {input other : List α} (stopped : input.head?.all stops = true)
      (otherStopped : other.head?.all stops = true) : SameUntil input other
  | cons {symbol : α} {input other : List α} (goesOn : stops symbol = false)
      (same : SameUntil input other) : SameUntil (symbol :: input) (symbol :: other)

/-- Two matches that consume the same, and no symbol of the class. -/
structure SameMatch (found other : Found α ν) : Prop where
  consumed : found.consumed = other.consumed
  goesOn : ∀ symbol ∈ found.consumed, stops symbol = false
  captures : found.captures = other.captures
  rest : SameUntil stops found.rest other.rest

variable {stops}

theorem SameMatch.last {found other : Found α ν} (same : SameMatch stops found other)
    (before : Option α) : found.last before = other.last before := by
  rw [Found.last, Found.last, same.consumed]

theorem SameMatch.append {first second firstOther secondOther : Found α ν}
    (same : SameMatch stops first firstOther) (sameSecond : SameMatch stops second secondOther) :
    SameMatch stops (first.append second) (firstOther.append secondOther) where
  consumed := congrArg₂ (· ++ ·) same.consumed sameSecond.consumed
  goesOn _ member := (List.mem_append.mp member).elim (same.goesOn _) (sameSecond.goesOn _)
  captures := congrArg₂ (· ++ ·) same.captures sameSecond.captures
  rest := sameSecond.rest

theorem SameMatch.nothing {input other : List α} (same : SameUntil stops input other) :
    SameMatch stops (Found.nothing input : Found α ν) (Found.nothing other) :=
  ⟨rfl, fun _ member => absurd member List.not_mem_nil, rfl, same⟩

variable (stops) in
/-- A matcher that does not look past a symbol of the class. -/
def Local (body : Option α → List α → List (Found α ν)) : Prop :=
  ∀ before input other, SameUntil stops input other →
    List.Forall₂ (SameMatch stops) (body before input) (body before other)

theorem forall₂_andThen {founds others : List (Found α ν)} {before : Option α}
    {rest : Option α → List α → List (Found α ν)}
    (same : List.Forall₂ (SameMatch stops) founds others) (restLocal : Local stops rest) :
    List.Forall₂ (SameMatch stops) (andThen founds before rest) (andThen others before rest) := by
  refine List.rel_flatMap same ?_
  intro found other sameFound
  refine List.rel_map (fun _ _ sameNext => sameFound.append sameNext) ?_
  rw [sameFound.last]
  exact restLocal _ _ _ sameFound.rest

theorem forall₂_filter {founds others : List (Found α ν)}
    (same : List.Forall₂ (SameMatch stops) founds others) :
    List.Forall₂ (SameMatch stops) (founds.filter fun found => !found.consumed.isEmpty)
      (others.filter fun found => !found.consumed.isEmpty) := by
  refine List.rel_filter (fun found other sameFound => ?_) same
  show (!found.consumed.isEmpty) = true ↔ (!other.consumed.isEmpty) = true
  rw [sameFound.consumed]

theorem Local.greedy {body : Option α → List α → List (Found α ν)} (isLocal : Local stops body)
    (fuel : Nat) : Local stops (greedy body fuel) := by
  induction fuel with
  | zero => exact fun before input other same => .cons (.nothing same) .nil
  | succ fuel hypothesis =>
      intro before input other same
      exact List.rel_append
        (forall₂_andThen (forall₂_filter (isLocal before input other same)) hypothesis)
        (.cons (.nothing same) .nil)

namespace Regex

variable (stops) in
/-- No symbol of the class is consumed, and none is told from the end. -/
def Blind : Regex α ν → Prop
  | chr accepts => ∀ symbol, stops symbol = true → accepts symbol = false
  | look holds => ∀ before symbol, stops symbol = true → holds before (some symbol) =
      holds before none
  | seq first second => first.Blind ∧ second.Blind
  | alt first second => first.Blind ∧ second.Blind
  | star body => body.Blind
  | lazyStar _ => False
  | group _ body => body.Blind

/-- No match of such an expression starts with a symbol of the class. -/
theorem Blind.starts_eq_false {regex : Regex α ν} (blind : regex.Blind stops) {symbol : α}
    (stopped : stops symbol = true) : regex.starts symbol = false := by
  induction regex with
  | chr accepts => exact blind symbol stopped
  | look holds => rfl
  | seq first second firstCannot secondCannot =>
      rw [starts, firstCannot blind.1, secondCannot blind.2, Bool.and_false, Bool.or_false]
  | alt first second firstCannot secondCannot =>
      rw [starts, firstCannot blind.1, secondCannot blind.2, Bool.or_false]
  | star body bodyCannot => exact bodyCannot blind
  | lazyStar body bodyCannot => exact blind.elim
  | group name body bodyCannot => exact bodyCannot blind

theorem blind_literal [BEq α] [LawfulBEq α] {text : List α}
    (goesOn : ∀ symbol ∈ text, stops symbol = false) :
    (literal text : Regex α ν).Blind stops := by
  induction text with
  | nil => exact fun before symbol stopped => rfl
  | cons first text hypothesis =>
      rw [List.forall_mem_cons] at goesOn
      refine ⟨fun symbol stopped => ?_, hypothesis goesOn.2⟩
      rw [beq_eq_false_iff_ne]
      rintro rfl
      rw [goesOn.1] at stopped
      cases stopped

theorem local_chr {accepts : α → Bool} (blind : (chr accepts : Regex α ν).Blind stops) :
    Local stops (chr accepts : Regex α ν).run := by
  have stuck {before : Option α} {input : List α} (stopped : input.head?.all stops = true) :
      (chr accepts : Regex α ν).run before input = [] := by
    cases input with
    | nil => rfl
    | cons symbol rest => simp [run, blind symbol (by simpa using stopped)]
  intro before input other same
  cases same with
  | stop stopped otherStopped =>
      rw [stuck stopped, stuck otherStopped]
      exact .nil
  | @cons symbol input other goesOn same =>
      simp only [run]
      by_cases accepted : accepts symbol = true
      · rw [if_pos accepted, if_pos accepted]
        exact .cons ⟨rfl, fun _ member => List.mem_singleton.mp member ▸ goesOn, rfl, same⟩ .nil
      · rw [if_neg accepted, if_neg accepted]
        exact .nil

theorem local_look {holds : Option α → Option α → Bool}
    (blind : (look holds : Regex α ν).Blind stops) :
    Local stops (look holds : Regex α ν).run := by
  have atEnd {before : Option α} {input : List α} (stopped : input.head?.all stops = true) :
      holds before input.head? = holds before none := by
    cases input with
    | nil => rfl
    | cons symbol rest => exact blind before symbol (by simpa using stopped)
  intro before input other same
  have sameHead : holds before input.head? = holds before other.head? := by
    cases same with
    | stop stopped otherStopped => rw [atEnd stopped, atEnd otherStopped]
    | cons goesOn same => rfl
  rw [run, run, sameHead]
  by_cases held : holds before other.head? = true
  · rw [if_pos held, if_pos held]
    exact .cons (.nothing same) .nil
  · rw [if_neg held, if_neg held]
    exact .nil

/-- The matches of such an expression depend only on what precedes the first symbol of the
class. -/
theorem local_run {regex : Regex α ν} (blind : regex.Blind stops) : Local stops regex.run := by
  induction regex with
  | chr accepts => exact local_chr blind
  | look holds => exact local_look blind
  | seq first second firstLocal secondLocal =>
      exact fun before input other same =>
        forall₂_andThen (firstLocal blind.1 before input other same) (secondLocal blind.2)
  | alt first second firstLocal secondLocal =>
      exact fun before input other same => List.rel_append
        (firstLocal blind.1 before input other same) (secondLocal blind.2 before input other same)
  | star body bodyLocal =>
      intro before input other same
      have rounds := greedy_of_length_le body.splits (max input.length other.length) before
      rw [run, run, ← rounds input (Nat.le_max_left ..), ← rounds other (Nat.le_max_right ..)]
      exact (bodyLocal blind).greedy _ before input other same
  | lazyStar body bodyLocal => exact blind.elim
  | group name body bodyLocal =>
      intro before input other same
      refine List.rel_map (fun found inner sameFound => ?_)
        (bodyLocal blind before input other same)
      exact ⟨sameFound.consumed, sameFound.goesOn,
        by rw [sameFound.consumed, sameFound.captures], sameFound.rest⟩

/-- The first alternative that matches is the same one. -/
theorem rel_findSome?_search {regexes : List (Regex α ν)}
    (blind : ∀ regex ∈ regexes, regex.Blind stops) (before : Option α) {input other : List α}
    (same : SameUntil stops input other) :
    Option.Rel (SameMatch stops) (regexes.findSome? fun regex => regex.search before input some)
      (regexes.findSome? fun regex => regex.search before other some) := by
  induction regexes with
  | nil => exact .none
  | cons regex regexes hypothesis =>
      rw [List.forall_mem_cons] at blind
      rw [List.findSome?_cons, List.findSome?_cons, ← firstMatch_eq_search, ← firstMatch_eq_search,
        firstMatch, firstMatch]
      have sameFounds := local_run blind.1 before input other same
      revert sameFounds
      generalize regex.run before input = founds
      generalize regex.run before other = others
      rintro (- | ⟨sameFound, -⟩)
      · exact hypothesis blind.2
      · exact .some sameFound

end Regex

end LeftmostFirst
