import Mathlib.Data.List.Basic

/-!
# Leftmost-first regular expressions

A backtracking matcher tries the alternatives of an expression in a fixed
order, and the first attempt that succeeds is the match.  Here an expression
denotes the list of all its matches at a position, in the order in which a
backtracking matcher would find them, so the match is the head of the list.
Repetitions are greedy or lazy, look-around assertions see one symbol on each
side, and groups record what they consumed.
-/

namespace LeftmostFirst

variable {α ν β γ : Type}

inductive Regex (α ν : Type) where
  | chr (accepts : α → Bool)
  | look (holds : Option α → Option α → Bool)
  | seq (first second : Regex α ν)
  | alt (first second : Regex α ν)
  | star (body : Regex α ν)
  | lazyStar (body : Regex α ν)
  | group (name : ν) (body : Regex α ν)

/-- One way to match at a position. -/
structure Found (α ν : Type) where
  consumed : List α
  rest : List α
  captures : List (ν × List α)

/-- The symbol before the end of a match that starts after `before`. -/
def Found.last (before : Option α) (found : Found α ν) : Option α :=
  found.consumed.getLast?.or before

def Found.append (first second : Found α ν) : Found α ν :=
  ⟨first.consumed ++ second.consumed, second.rest, first.captures ++ second.captures⟩

/-- The match that consumes nothing. -/
def Found.nothing (input : List α) : Found α ν :=
  ⟨[], input, []⟩

/-- Continue every match of a list, keeping the order of preference. -/
def andThen (founds : List (Found α ν)) (before : Option α)
    (continuation : Option α → List α → List (Found α ν)) : List (Found α ν) :=
  founds.flatMap fun found =>
    (continuation (found.last before) found.rest).map found.append

/-- Repeat a matcher at most `fuel` times, more repetitions first.  Repetitions
that consume nothing are dropped. -/
def greedy (body : Option α → List α → List (Found α ν)) :
    Nat → Option α → List α → List (Found α ν)
  | 0, _, input => [Found.nothing input]
  | fuel + 1, before, input =>
      andThen ((body before input).filter fun found => !found.consumed.isEmpty) before
        (greedy body fuel) ++ [Found.nothing input]

/-- Repeat a matcher at most `fuel` times, fewer repetitions first. -/
def reluctant (body : Option α → List α → List (Found α ν)) :
    Nat → Option α → List α → List (Found α ν)
  | 0, _, input => [Found.nothing input]
  | fuel + 1, before, input =>
      Found.nothing input ::
        andThen ((body before input).filter fun found => !found.consumed.isEmpty) before
          (reluctant body fuel)

namespace Regex

/-- All matches at a position, in order of preference.  Every repetition that
counts consumes a symbol, so the length of the input bounds their number. -/
def run : Regex α ν → Option α → List α → List (Found α ν)
  | chr _, _, [] => []
  | chr accepts, _, symbol :: rest => if accepts symbol then [⟨[symbol], rest, []⟩] else []
  | look holds, before, input =>
      if holds before input.head? then [Found.nothing input] else []
  | seq first second, before, input => andThen (first.run before input) before second.run
  | alt first second, before, input => first.run before input ++ second.run before input
  | star body, before, input => greedy body.run input.length before input
  | lazyStar body, before, input => reluctant body.run input.length before input
  | group name body, before, input =>
      (body.run before input).map fun found =>
        { found with captures := (name, found.consumed) :: found.captures }

/-- The match of a backtracking matcher. -/
def firstMatch (regex : Regex α ν) (before : Option α) (input : List α) :
    Option (Found α ν) :=
  (regex.run before input).head?

/-- The successive matches in an input, skipping symbols at which nothing
matches.  After a match that consumes nothing one symbol is skipped. -/
def capturesIter (regex : Regex α ν) : Nat → Option α → List α → List (Found α ν)
  | 0, _, _ => []
  | fuel + 1, before, input =>
      match regex.firstMatch before input, input with
      | some found, [] => [found]
      | some found, symbol :: rest =>
          if found.consumed.isEmpty then
            found :: regex.capturesIter fuel (some symbol) rest
          else found :: regex.capturesIter fuel (found.last before) found.rest
      | none, [] => []
      | none, symbol :: rest => regex.capturesIter fuel (some symbol) rest

/-- The given symbols one after the other. -/
def literal [BEq α] : List α → Regex α ν
  | [] => look fun _ _ => true
  | symbol :: rest => seq (chr (· == symbol)) (literal rest)

/-- One or more repetitions. -/
def plus (body : Regex α ν) : Regex α ν :=
  seq body (star body)

/-- Alternatives in order of preference, before a last one. -/
def alternatives (regexes : List (Regex α ν)) (last : Regex α ν) : Regex α ν :=
  regexes.foldr alt last

/-! ## Searching with a continuation

A matcher that backtracks asks its continuation about each match in turn. -/

/-- The first answer of a continuation that is asked about each match. -/
def search (regex : Regex α ν) (before : Option α) (input : List α)
    (continuation : Found α ν → Option β) : Option β :=
  (regex.run before input).findSome? continuation

theorem firstMatch_eq_search (regex : Regex α ν) (before : Option α) (input : List α) :
    regex.firstMatch before input = regex.search before input some := by
  unfold firstMatch search
  cases regex.run before input <;> rfl

end Regex

theorem findSome?_andThen (founds : List (Found α ν)) (before : Option α)
    (next : Option α → List α → List (Found α ν)) (continuation : Found α ν → Option β) :
    (andThen founds before next).findSome? continuation =
      founds.findSome? fun found =>
        (next (found.last before) found.rest).findSome? fun second =>
          continuation (found.append second) := by
  unfold andThen
  induction founds with
  | nil => rfl
  | cons found founds foundsIH =>
      have mapped : ((next (found.last before) found.rest).map found.append).findSome?
          continuation = (next (found.last before) found.rest).findSome? fun second =>
            continuation (found.append second) := by
        rw [List.findSome?_map]
        rfl
      rw [List.flatMap_cons, List.findSome?_append, foundsIH, mapped, List.findSome?_cons]
      cases (next (found.last before) found.rest).findSome? fun second =>
        continuation (found.append second) <;> rfl

namespace Regex

variable (before : Option α) (input : List α) (continuation : Found α ν → Option β)

@[simp]
theorem search_chr_nil (accepts : α → Bool) :
    (chr accepts).search before [] continuation = none :=
  rfl

@[simp]
theorem search_chr_cons (accepts : α → Bool) (symbol : α) (rest : List α) :
    (chr accepts).search before (symbol :: rest) continuation =
      if accepts symbol then continuation ⟨[symbol], rest, []⟩ else none := by
  unfold search run
  split <;> simp

@[simp]
theorem search_look (holds : Option α → Option α → Bool) :
    (look holds).search before input continuation =
      if holds before input.head? then continuation (Found.nothing input) else none := by
  unfold search run
  split <;> simp

@[simp]
theorem search_seq (first second : Regex α ν) :
    (seq first second).search before input continuation =
      first.search before input fun found =>
        second.search (found.last before) found.rest fun next =>
          continuation (found.append next) :=
  findSome?_andThen ..

@[simp]
theorem search_alt (first second : Regex α ν) :
    (alt first second).search before input continuation =
      (first.search before input continuation).or
        (second.search before input continuation) :=
  List.findSome?_append

@[simp]
theorem search_group (name : ν) (body : Regex α ν) :
    (group name body).search before input continuation =
      body.search before input fun found =>
        continuation { found with captures := (name, found.consumed) :: found.captures } := by
  unfold search
  rw [run, List.findSome?_map]
  rfl

theorem search_alternatives (regexes : List (Regex α ν)) (last : Regex α ν) :
    (alternatives regexes last).search before input continuation =
      (regexes.findSome? fun regex => regex.search before input continuation).or
        (last.search before input continuation) := by
  unfold alternatives
  induction regexes with
  | nil => simp
  | cons regex regexes regexesIH =>
      rw [List.foldr_cons, search_alt, regexesIH, List.findSome?_cons]
      cases regex.search before input continuation <;> simp

/-! ## What a match can start with -/

/-- Whether an expression may match without consuming. -/
def nullable : Regex α ν → Bool
  | chr _ => false
  | look _ => true
  | seq first second => first.nullable && second.nullable
  | alt first second => first.nullable || second.nullable
  | star _ => true
  | lazyStar _ => true
  | group _ body => body.nullable

/-- Whether a match that consumes may start with a symbol. -/
def starts (symbol : α) : Regex α ν → Bool
  | chr accepts => accepts symbol
  | look _ => false
  | seq first second => first.starts symbol || first.nullable && second.starts symbol
  | alt first second => first.starts symbol || second.starts symbol
  | star body => body.starts symbol
  | lazyStar body => body.starts symbol
  | group _ body => body.starts symbol

end Regex

theorem mem_andThen {founds : List (Found α ν)} {before : Option α}
    {continuation : Option α → List α → List (Found α ν)} {found : Found α ν} :
    found ∈ andThen founds before continuation ↔
      ∃ first ∈ founds, ∃ second ∈ continuation (first.last before) first.rest,
        first.append second = found := by
  simp [andThen]

namespace Regex

attribute [local simp] nullable starts

theorem consumed_ne_nil {regex : Regex α ν} (consumes : regex.nullable = false)
    {before : Option α} {input : List α} {found : Found α ν}
    (member : found ∈ regex.run before input) : found.consumed ≠ [] := by
  induction regex generalizing before input found with
  | chr accepts =>
      cases input with
      | nil => simp [run] at member
      | cons symbol rest =>
          have same : accepts symbol = true ∧ found = ⟨[symbol], rest, []⟩ := by
            simpa [run] using member
          simp [same.2]
  | look holds => simp at consumes
  | seq first second firstIH secondIH =>
      obtain ⟨left, leftMember, right, rightMember, rfl⟩ := mem_andThen.1 member
      cases hFirst : first.nullable with
      | false => simp [Found.append, firstIH hFirst leftMember]
      | true =>
          have hSecond : second.nullable = false := by simpa [hFirst] using consumes
          simp [Found.append, secondIH hSecond rightMember]
  | alt first second firstIH secondIH =>
      simp only [nullable, Bool.or_eq_false_iff] at consumes
      rcases List.mem_append.mp member with member | member
      · exact firstIH consumes.1 member
      · exact secondIH consumes.2 member
  | star body bodyIH => simp at consumes
  | lazyStar body bodyIH => simp at consumes
  | group name body bodyIH =>
      obtain ⟨inner, innerMember, rfl⟩ := List.mem_map.mp member
      have innerNonempty : inner.consumed ≠ [] := bodyIH consumes innerMember
      exact innerNonempty

/-- A match at a symbol with which it cannot start consumes nothing. -/
theorem consumed_eq_nil {regex : Regex α ν} {symbol : α} {rest : List α}
    (cannot : regex.starts symbol = false) {before : Option α} {found : Found α ν}
    (member : found ∈ regex.run before (symbol :: rest)) :
    found.consumed = [] ∧ found.rest = symbol :: rest := by
  induction regex generalizing before found with
  | chr accepts => simp_all [run]
  | look holds =>
      have same : found = Found.nothing (symbol :: rest) := by
        by_cases hHolds : holds before (some symbol) <;> simp_all [run]
      simp [same, Found.nothing]
  | seq first second firstIH secondIH =>
      simp only [starts, Bool.or_eq_false_iff, Bool.and_eq_false_iff] at cannot
      obtain ⟨left, leftMember, right, rightMember, rfl⟩ := mem_andThen.1 member
      obtain ⟨leftNil, leftRest⟩ := firstIH cannot.1 leftMember
      rw [leftRest] at rightMember
      rcases cannot.2 with consumes | cannotSecond
      · exact absurd leftNil (consumed_ne_nil consumes leftMember)
      · obtain ⟨rightNil, rightRest⟩ := secondIH cannotSecond rightMember
        simp [Found.append, leftNil, rightNil, rightRest]
  | alt first second firstIH secondIH =>
      simp only [starts, Bool.or_eq_false_iff] at cannot
      rcases List.mem_append.mp member with member | member
      · exact firstIH cannot.1 member
      · exact secondIH cannot.2 member
  | star body bodyIH =>
      rcases List.mem_append.mp member with member | member
      · obtain ⟨left, leftMember, -⟩ := mem_andThen.1 member
        obtain ⟨leftMember, leftNonempty⟩ := List.mem_filter.mp leftMember
        simp [(bodyIH cannot leftMember).1] at leftNonempty
      · simp_all [Found.nothing]
  | lazyStar body bodyIH =>
      rcases List.mem_cons.mp member with rfl | member
      · simp [Found.nothing]
      · obtain ⟨left, leftMember, -⟩ := mem_andThen.1 member
        obtain ⟨leftMember, leftNonempty⟩ := List.mem_filter.mp leftMember
        simp [(bodyIH cannot leftMember).1] at leftNonempty
  | group name body bodyIH =>
      obtain ⟨inner, innerMember, rfl⟩ := List.mem_map.mp member
      have innerNothing : inner.consumed = [] ∧ inner.rest = symbol :: rest :=
        bodyIH cannot innerMember
      exact innerNothing

/-- An expression that must consume finds nothing at a symbol with which it
cannot start. -/
theorem search_eq_none {regex : Regex α ν} {symbol : α} (consumes : regex.nullable = false)
    (cannot : regex.starts symbol = false) (before : Option α) (rest : List α)
    (continuation : Found α ν → Option β) :
    regex.search before (symbol :: rest) continuation = none := by
  apply List.findSome?_eq_none_iff.mpr
  intro found member
  exact absurd (consumed_eq_nil cannot member).1 (consumed_ne_nil consumes member)

/-- Only alternatives that can start with the next symbol need to be tried. -/
theorem findSome?_search_filter (regexes : List (Regex α ν)) (symbol : α)
    (keep : Regex α ν → Bool)
    (skip : ∀ regex ∈ regexes, keep regex = false →
      regex.nullable = false ∧ regex.starts symbol = false)
    (before : Option α) (rest : List α) (continuation : Found α ν → Option β) :
    (regexes.findSome? fun regex => regex.search before (symbol :: rest) continuation) =
      (regexes.filter keep).findSome? fun regex =>
        regex.search before (symbol :: rest) continuation := by
  induction regexes with
  | nil => rfl
  | cons regex regexes regexesIH =>
      have tailIH := regexesIH fun other member => skip other (List.mem_cons_of_mem _ member)
      cases hKeep : keep regex with
      | true => simp [hKeep, List.findSome?_cons, tailIH]
      | false =>
          obtain ⟨consumes, cannot⟩ := skip regex (List.mem_cons_self ..) hKeep
          have headNone := search_eq_none consumes cannot before rest continuation
          simp [hKeep, tailIH, headNone]

/-- A literal consumes exactly its own text. -/
@[simp]
theorem search_literal [BEq α] [LawfulBEq α] (text : List α) (before : Option α)
    (input : List α) (continuation : Found α ν → Option β) :
    (literal text).search before input continuation =
      if text.isPrefixOf input then continuation ⟨text, input.drop text.length, []⟩ else none := by
  induction text generalizing before input continuation with
  | nil => simp [literal, Found.nothing]
  | cons symbol text textIH =>
      cases input with
      | nil => simp [literal]
      | cons first rest =>
          by_cases same : first = symbol
          · subst same
            simp only [literal, search_seq, search_chr_cons, beq_self_eq_true, if_true, textIH,
              Found.append, List.isPrefixOf, Bool.true_and]
            simp
          · simp [literal, same, Ne.symm same]

end Regex

/-! ## Repetition -/

/-- A matcher only splits its input. -/
def Splits (body : Option α → List α → List (Found α ν)) : Prop :=
  ∀ before input, ∀ found ∈ body before input, found.consumed ++ found.rest = input

theorem Splits.andThen {first second : Option α → List α → List (Found α ν)}
    (firstSplits : Splits first) (secondSplits : Splits second) :
    Splits fun before input => andThen (first before input) before second := by
  intro before input found member
  obtain ⟨left, leftMember, right, rightMember, rfl⟩ := mem_andThen.1 member
  simp [Found.append, secondSplits _ _ _ rightMember, firstSplits _ _ _ leftMember]

theorem Splits.filter {body : Option α → List α → List (Found α ν)} (splits : Splits body)
    (keep : Found α ν → Bool) : Splits fun before input => (body before input).filter keep :=
  fun before input found member => splits before input found (List.mem_filter.mp member).1

theorem Splits.greedy {body : Option α → List α → List (Found α ν)} (splits : Splits body)
    (fuel : Nat) : Splits (greedy body fuel) := by
  induction fuel with
  | zero => simp [Splits, LeftmostFirst.greedy, Found.nothing]
  | succ fuel fuelIH =>
      intro before input found member
      rcases List.mem_append.mp member with member | member
      · exact (splits.filter _).andThen fuelIH before input found member
      · simp_all [Found.nothing]

theorem Splits.reluctant {body : Option α → List α → List (Found α ν)} (splits : Splits body)
    (fuel : Nat) : Splits (reluctant body fuel) := by
  induction fuel with
  | zero => simp [Splits, LeftmostFirst.reluctant, Found.nothing]
  | succ fuel fuelIH =>
      intro before input found member
      rcases List.mem_cons.mp member with rfl | member
      · simp [Found.nothing]
      · exact (splits.filter _).andThen fuelIH before input found member

theorem Regex.splits (regex : Regex α ν) : Splits regex.run := by
  induction regex with
  | chr accepts =>
      intro before input found member
      cases input with
      | nil => simp [run] at member
      | cons symbol rest =>
          by_cases hAccepts : accepts symbol <;> simp_all [run]
  | look holds =>
      intro before input found member
      by_cases hHolds : holds before input.head? <;> simp_all [run, Found.nothing]
  | seq first second firstIH secondIH => exact firstIH.andThen secondIH
  | alt first second firstIH secondIH =>
      intro before input found member
      rcases List.mem_append.mp member with member | member
      · exact firstIH before input found member
      · exact secondIH before input found member
  | star body bodyIH => exact fun before input => bodyIH.greedy _ before input
  | lazyStar body bodyIH => exact fun before input => bodyIH.reluctant _ before input
  | group name body bodyIH =>
      intro before input found member
      obtain ⟨inner, innerMember, rfl⟩ := List.mem_map.mp member
      have innerSplit : inner.consumed ++ inner.rest = input :=
        bodyIH before input inner innerMember
      exact innerSplit

/-- A repetition leaves less of the input, so a bound on the number of
repetitions that covers the input may be any such bound. -/
theorem greedy_of_length_le {body : Option α → List α → List (Found α ν)}
    (splits : Splits body) (fuel : Nat) (before : Option α) (input : List α)
    (enough : input.length ≤ fuel) :
    greedy body fuel before input = greedy body input.length before input := by
  induction fuel using Nat.strongRecOn generalizing before input with
  | ind fuel fuelIH =>
      cases fuel with
      | zero =>
          have noInput : input.length = 0 := by omega
          rw [noInput]
      | succ fuel =>
          cases input with
          | nil =>
              have noRepetition : ((body before []).filter fun found =>
                  !found.consumed.isEmpty) = [] := by
                apply List.filter_eq_nil_iff.mpr
                intro found member
                have split := splits before [] found member
                simp_all
              simp [greedy, noRepetition, andThen]
          | cons symbol rest =>
              have sameRest : andThen ((body before (symbol :: rest)).filter fun found =>
                    !found.consumed.isEmpty) before (greedy body fuel) =
                  andThen ((body before (symbol :: rest)).filter fun found =>
                    !found.consumed.isEmpty) before (greedy body rest.length) := by
                unfold andThen
                apply List.flatMap_congr
                intro found member
                obtain ⟨member, nonempty⟩ := List.mem_filter.mp member
                have split := congrArg List.length (splits before _ found member)
                have consumedLength : found.consumed.length ≠ 0 := by simpa using nonempty
                simp only [List.length_append, List.length_cons] at split enough
                have shorter : found.rest.length ≤ rest.length := by omega
                rw [fuelIH fuel (by omega) _ _ (by omega),
                  fuelIH rest.length (by omega) _ _ shorter]
              simp only [greedy, List.length_cons, sameRest]

theorem findSome?_congr {founds : List α} {first second : α → Option β}
    (same : ∀ found ∈ founds, first found = second found) :
    founds.findSome? first = founds.findSome? second := by
  induction founds with
  | nil => rfl
  | cons found founds foundsIH =>
      rw [List.findSome?_cons, List.findSome?_cons, same found (List.mem_cons_self ..),
        foundsIH fun other member => same other (List.mem_cons_of_mem _ member)]

namespace Regex

/-- A repetition either matches once and repeats, or stops. -/
theorem search_star {body : Regex α ν} (consumes : body.nullable = false)
    (before : Option α) (input : List α) (continuation : Found α ν → Option β) :
    (star body).search before input continuation =
      (body.search before input fun found =>
        (star body).search (found.last before) found.rest fun next =>
          continuation (found.append next)).or (continuation (Found.nothing input)) := by
  have keepAll : ((body.run before input).filter fun found => !found.consumed.isEmpty) =
      body.run before input := by
    apply List.filter_eq_self.mpr
    intro found member
    simpa using consumed_ne_nil consumes member
  have unfolded : (star body).run before input =
      greedy body.run (input.length + 1) before input := by
    rw [run, greedy_of_length_le body.splits (input.length + 1) before input (by omega)]
  unfold search
  rw [unfolded, greedy, keepAll, List.findSome?_append, findSome?_andThen]
  congr 1
  · apply findSome?_congr
    intro found member
    have split := congrArg List.length (body.splits before input found member)
    simp only [List.length_append] at split
    rw [run, greedy_of_length_le body.splits input.length _ _ (by omega)]
  · simp

theorem search_nil {body : Regex α ν} (consumes : body.nullable = false) (before : Option α)
    (continuation : Found α ν → Option β) : body.search before [] continuation = none := by
  apply List.findSome?_eq_none_iff.mpr
  intro found member
  have split := body.splits before [] found member
  exact absurd (List.append_eq_nil_iff.mp split).1 (consumed_ne_nil consumes member)

/-- An expression that consumes exactly one symbol of a class. -/
def Single (body : Regex α ν) (accepts : α → Bool) : Prop :=
  ∀ before symbol rest (continuation : Found α ν → Option (Found α ν)),
    body.search before (symbol :: rest) continuation =
      if accepts symbol then continuation ⟨[symbol], rest, []⟩ else none

theorem single_chr (accepts : α → Bool) : Single (chr accepts : Regex α ν) accepts :=
  fun before symbol rest continuation => search_chr_cons before continuation accepts symbol rest

theorem Single.alt {first second : Regex α ν} {firstAccepts secondAccepts : α → Bool}
    (firstSingle : Single first firstAccepts) (secondSingle : Single second secondAccepts) :
    Single (alt first second) fun symbol => firstAccepts symbol || secondAccepts symbol := by
  intro before symbol rest continuation
  rw [search_alt, firstSingle, secondSingle]
  cases hFirst : firstAccepts symbol <;> cases hSecond : secondAccepts symbol <;>
    simp [hFirst, hSecond]

section Span

variable {body : Regex α ν} {accepts : α → Bool} (single : Single body accepts)
  (consumes : body.nullable = false) {rest : List α} (stop : rest.head?.any accepts = false)

include single consumes stop

theorem Single.search_stop (before : Option α)
    (continuation : Found α ν → Option (Found α ν)) :
    body.search before rest continuation = none := by
  cases rest with
  | nil => exact search_nil consumes before continuation
  | cons symbol rest =>
      have rejected : accepts symbol = false := by simpa using stop
      simp [single before symbol rest continuation, rejected]

/-- A repetition over one class prefers all the symbols of the class. -/
theorem Single.search_star_all (many : List α) (accepted : ∀ symbol ∈ many, accepts symbol)
    (before : Option α) (continuation : Found α ν → Option (Found α ν)) (answer : Found α ν)
    (answers : continuation ⟨many, rest, []⟩ = some answer) :
    (star body).search before (many ++ rest) continuation = some answer := by
  induction many generalizing before continuation with
  | nil =>
      rw [List.nil_append, search_star consumes, single.search_stop consumes stop]
      exact answers
  | cons symbol many manyIH =>
      have tailIH := manyIH (fun other member => accepted other (List.mem_cons_of_mem _ member))
        (some symbol) (fun next => continuation (Found.append ⟨[symbol], many ++ rest, []⟩ next))
        answers
      rw [search_star consumes, List.cons_append, single, accepted symbol (List.mem_cons_self ..)]
      simpa [Found.last] using congrArg (Option.or · _) tailIH

/-- A repetition over one class fails if nothing can follow any part of it. -/
theorem Single.search_star_none (many : List α) (accepted : ∀ symbol ∈ many, accepts symbol)
    (before : Option α) (continuation : Found α ν → Option (Found α ν))
    (fails : ∀ first second, first ++ second = many →
      continuation ⟨first, second ++ rest, []⟩ = none) :
    (star body).search before (many ++ rest) continuation = none := by
  induction many generalizing before continuation with
  | nil =>
      rw [List.nil_append, search_star consumes, single.search_stop consumes stop]
      exact fails [] [] rfl
  | cons symbol many manyIH =>
      have tailIH := manyIH (fun other member => accepted other (List.mem_cons_of_mem _ member))
        (some symbol) (fun next => continuation (Found.append ⟨[symbol], many ++ rest, []⟩ next))
        (fun first second split => fails (symbol :: first) second (by rw [← split]; rfl))
      have stopHere := fails [] (symbol :: many) rfl
      rw [search_star consumes, List.cons_append, single, accepted symbol (List.mem_cons_self ..)]
      simp_all [Found.last, Found.nothing]

end Span

/-- A match of a literal is its text. -/
theorem consumed_literal [BEq α] [LawfulBEq α] {text : List α} {before : Option α}
    {input : List α} {found : Found α ν} (member : found ∈ (literal text).run before input) :
    found.consumed = text := by
  induction text generalizing before input found with
  | nil =>
      have same : found = Found.nothing input := by simpa [literal, run] using member
      rw [same, Found.nothing]
  | cons symbol text hypothesis =>
      obtain ⟨left, leftMember, right, rightMember, rfl⟩ := mem_andThen.mp member
      cases input with
      | nil => simp [run] at leftMember
      | cons first rest =>
          have same : first = symbol ∧ left = ⟨[first], rest, []⟩ := by
            simpa [run] using leftMember
          simp [Found.append, same, hypothesis rightMember]

/-- A repetition over one class consumes symbols of the class. -/
theorem consumed_star_chr {accepts : α → Bool} {before : Option α} {input : List α}
    {found : Found α ν} (member : found ∈ (star (chr accepts)).run before input) :
    ∀ symbol ∈ found.consumed, accepts symbol = true := by
  rw [run] at member
  generalize input.length = fuel at member
  induction fuel generalizing before input found with
  | zero => simp_all [greedy, Found.nothing]
  | succ fuel hypothesis =>
      obtain member | member := List.mem_append.mp member
      · obtain ⟨left, leftMember, right, rightMember, rfl⟩ := mem_andThen.mp member
        have isLeft := (List.mem_filter.mp leftMember).1
        intro symbol inside
        obtain inLeft | inRight := List.mem_append.mp inside
        · cases input with
          | nil => simp [run] at isLeft
          | cons first rest =>
              have same : accepts first = true ∧ left = ⟨[first], rest, []⟩ := by
                simpa [run] using isLeft
              obtain rfl : symbol = first := by simpa [same.2] using inLeft
              exact same.1
        · exact hypothesis rightMember symbol inRight
      · simp_all [Found.nothing]

/-- A lazy repetition of any symbol first tries to stop. -/
theorem search_lazyStar_cons (before : Option α) (symbol : α) (input : List α)
    (continuation : Found α ν → Option β) :
    (lazyStar (chr fun _ => true)).search before (symbol :: input) continuation =
      (continuation (Found.nothing (symbol :: input))).or
        ((lazyStar (chr fun _ => true)).search (some symbol) input fun next =>
          continuation (Found.append ⟨[symbol], input, []⟩ next)) := by
  simp only [search, run, List.length_cons, reluctant, if_true, List.findSome?_cons]
  cases continuation (Found.nothing (symbol :: input)) with
  | none => rw [findSome?_andThen]; simp [Found.last]
  | some answer => simp

/-- A lazy repetition of any symbol stops at the first place where it can go on. -/
theorem search_lazyStar_any (before : Option α) (input : List α)
    (continuation : Found α ν → Option β) {answer : β}
    (found : (lazyStar (chr fun _ => true)).search before input continuation = some answer) :
    ∃ skipped rest, input = skipped ++ rest ∧ continuation ⟨skipped, rest, []⟩ = some answer ∧
      ∀ first second, skipped = first ++ second → second ≠ [] →
        continuation ⟨first, second ++ rest, []⟩ = none := by
  induction input generalizing before continuation with
  | nil =>
      refine ⟨[], [], rfl, ?_, fun first second split nonempty => ?_⟩
      · simpa [search, run, reluctant, Found.nothing] using found
      · exact absurd (List.append_eq_nil_iff.mp split.symm).2 nonempty
  | cons symbol input hypothesis =>
      rw [search_lazyStar_cons] at found
      cases stops : continuation (Found.nothing (symbol :: input)) with
      | some other =>
          rw [stops, Option.some_or] at found
          refine ⟨[], symbol :: input, rfl, stops.trans found, ?_⟩
          intro first second split nonempty
          exact absurd (List.append_eq_nil_iff.mp split.symm).2 nonempty
      | none =>
          rw [stops, Option.none_or] at found
          obtain ⟨skipped, rest, rfl, goes, earlier⟩ := hypothesis _ _ found
          refine ⟨symbol :: skipped, rest, rfl, goes, fun first second split nonempty => ?_⟩
          cases first with
          | nil =>
              rw [List.nil_append] at split
              rw [← split]
              exact stops
          | cons other first =>
              obtain ⟨rfl, splitRest⟩ := List.cons.inj split
              exact earlier first second splitRest nonempty

/-! ## What a match can end with -/

/-- Whether a match may end with a symbol. -/
def ends (symbol : α) : Regex α ν → Bool
  | chr accepts => accepts symbol
  | look _ => false
  | seq first second => second.ends symbol || second.nullable && first.ends symbol
  | alt first second => first.ends symbol || second.ends symbol
  | star body => body.ends symbol
  | lazyStar body => body.ends symbol
  | group _ body => body.ends symbol

end Regex

/-- The matches of a matcher that are not empty end with symbols of a class. -/
def EndsIn (accepts : α → Prop) (body : Option α → List α → List (Found α ν)) : Prop :=
  ∀ before input, ∀ found ∈ body before input, ∀ symbol,
    found.consumed.getLast? = some symbol → accepts symbol

theorem Found.getLast?_append (first second : Found α ν) :
    (first.append second).consumed.getLast? =
      second.consumed.getLast?.or first.consumed.getLast? :=
  List.getLast?_append

section EndsIn

variable {accepts : α → Prop} {body : Option α → List α → List (Found α ν)}

theorem EndsIn.andThen {rest : Option α → List α → List (Found α ν)} (ends : EndsIn accepts body)
    (restEnds : EndsIn accepts rest) (keep : Found α ν → Bool) :
    EndsIn accepts fun before input =>
      LeftmostFirst.andThen ((body before input).filter keep) before rest := by
  intro before input found member symbol last
  obtain ⟨left, leftMember, right, rightMember, rfl⟩ := mem_andThen.mp member
  rw [Found.getLast?_append, Option.or_eq_some_iff] at last
  obtain inRight | ⟨-, inLeft⟩ := last
  · exact restEnds _ _ right rightMember symbol inRight
  · exact ends _ _ left (List.mem_filter.mp leftMember).1 symbol inLeft

theorem EndsIn.greedy (ends : EndsIn accepts body) (fuel : Nat) :
    EndsIn accepts (greedy body fuel) := by
  induction fuel with
  | zero => simp [EndsIn, LeftmostFirst.greedy, Found.nothing]
  | succ fuel hypothesis =>
      intro before input found member symbol last
      obtain member | member := List.mem_append.mp member
      · exact ends.andThen hypothesis _ before input found member symbol last
      · simp_all [Found.nothing]

theorem EndsIn.reluctant (ends : EndsIn accepts body) (fuel : Nat) :
    EndsIn accepts (reluctant body fuel) := by
  induction fuel with
  | zero => simp [EndsIn, LeftmostFirst.reluctant, Found.nothing]
  | succ fuel hypothesis =>
      intro before input found member symbol last
      obtain rfl | member := List.mem_cons.mp member
      · simp [Found.nothing] at last
      · exact ends.andThen hypothesis _ before input found member symbol last

end EndsIn

/-- A match ends with a symbol only where its expression can. -/
theorem Regex.endsIn (regex : Regex α ν) :
    EndsIn (fun symbol => regex.ends symbol = true) regex.run := by
  induction regex with
  | chr accepts =>
      intro before input found member symbol last
      cases input with
      | nil => simp [run] at member
      | cons first rest =>
          have same : accepts first = true ∧ found = ⟨[first], rest, []⟩ := by
            simpa [run] using member
          obtain rfl : first = symbol := by simpa [same.2] using last
          exact same.1
  | look holds =>
      intro before input found member symbol last
      by_cases isHeld : holds before input.head? <;> simp_all [run, Found.nothing]
  | seq first second firstEnds secondEnds =>
      intro before input found member symbol last
      obtain ⟨left, leftMember, right, rightMember, rfl⟩ := mem_andThen.mp member
      rw [Found.getLast?_append, Option.or_eq_some_iff] at last
      obtain inRight | ⟨isEmpty, inLeft⟩ := last
      · simp [ends, secondEnds _ _ right rightMember symbol inRight]
      · have isNullable : second.nullable = true := by
          by_contra consumes
          exact consumed_ne_nil (by simpa using consumes) rightMember
            (List.getLast?_eq_none_iff.mp isEmpty)
        simp [ends, isNullable, firstEnds _ _ left leftMember symbol inLeft]
  | alt first second firstEnds secondEnds =>
      intro before input found member symbol last
      obtain member | member := List.mem_append.mp member
      · simp [ends, firstEnds before input found member symbol last]
      · simp [ends, secondEnds before input found member symbol last]
  | star body bodyEnds =>
      exact fun before input => bodyEnds.greedy _ before input
  | lazyStar body bodyEnds =>
      exact fun before input => bodyEnds.reluctant _ before input
  | group name body bodyEnds =>
      intro before input found member symbol last
      obtain ⟨inner, innerMember, rfl⟩ := List.mem_map.mp member
      exact bodyEnds before input inner innerMember symbol last

end LeftmostFirst
