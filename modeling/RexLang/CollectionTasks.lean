import RexLang.NativeFunctions
import RexLang.SymbolMaps

/-!
# Tasks that gather results

A native task that spawns one child for each element keeps the result of a child in a
slot until all of them are there.  Whatever the order in which the results come, and
whatever happens between them, the task then returns what its function makes of the
results in the order of the elements.
-/

namespace RexLang

variable {Ptr Value Call Scope Slot : Type}

open EvalM Program

/-! ## Slots -/

/-- The slots once these children have delivered their results. -/
def slotsOf (slot : FrameId → Slot) (children delivered : List FrameId) : List (Option Slot) :=
  children.map fun child => if child ∈ delivered then some (slot child) else none

section Slots

variable {slot : FrameId → Slot} {children delivered : List FrameId} {child : FrameId}

theorem not_mem_of_nodup (nodup : (delivered ++ [child]).Nodup) : child ∉ delivered :=
  fun member => (List.nodup_append.mp nodup).2.2 child member child (by simp) rfl

theorem slotsOf_nil (slot : FrameId → Slot) (children : List FrameId) :
    slotsOf slot children [] = List.replicate children.length none := by
  simp [slotsOf, List.map_const']

theorem slotsOf_all (all : ∀ child ∈ children, child ∈ delivered) :
    slotsOf slot children delivered = (children.map slot).map some := by
  rw [List.map_map]
  exact List.map_congr_left fun child member => if_pos (all child member)

theorem allFilled_map_some (slots : List Slot) : allFilled (slots.map some) = some slots := by
  induction slots with
  | nil => rfl
  | cons slot slots hypothesis =>
      rw [List.map_cons, allFilled, hypothesis]
      rfl

theorem set_slotsOf (nodup : children.Nodup) {index : Nat} (found : children[index]? = some child)
    (result : Slot) :
    (slotsOf slot children delivered).set index (some result) =
      slotsOf (Function.update slot child result) children (delivered ++ [child]) := by
  apply List.ext_getElem?
  intro other
  rw [List.getElem?_set, slotsOf, slotsOf, List.getElem?_map, List.getElem?_map]
  by_cases same : index = other
  · subst same
    obtain ⟨bound, isChild⟩ := List.getElem?_eq_some_iff.mp found
    simp [bound, isChild]
  · rw [if_neg same]
    cases isOther : children[other]? with
    | none => rfl
    | some sibling =>
        have different : sibling ≠ child := by
          rintro rfl
          obtain ⟨bound, -⟩ := List.getElem?_eq_some_iff.mp found
          exact same ((List.getElem?_inj bound nodup).mp (found.trans isOther.symm))
        simp [different]

theorem exists_emptySlot (slot : FrameId → Slot) (member : child ∈ children)
    (isNew : child ∉ delivered) :
    ∃ index, children.idxOf? child = some index ∧ children[index]? = some child ∧
      (slotsOf slot children delivered)[index]? = some none := by
  have found : children[children.idxOf child]? = some child :=
    List.getElem?_eq_some_iff.mpr ⟨List.idxOf_lt_length_of_mem member, List.getElem_idxOf _⟩
  refine ⟨children.idxOf child, ?_, found, ?_⟩
  · rw [List.idxOf?_eq_some_iff]
    refine ⟨List.idxOf_lt_length_of_mem member, List.getElem_idxOf _, fun earlier before => ?_⟩
    simpa using List.not_of_lt_findIdx before
  · rw [slotsOf, List.getElem?_map, found, Option.map_some, if_neg isNew]

variable {texts : GatherTexts} {convert : EvalM Ptr Value Call Slot}

theorem fillSlot_slotsOf (nodup : children.Nodup) (member : child ∈ children)
    (isNew : child ∉ delivered) :
    fillSlot texts children (slotsOf slot children delivered) child convert =
      (fun result => slotsOf (Function.update slot child result) children
        (delivered ++ [child])) <$> convert := by
  obtain ⟨index, position, found, empty⟩ := exists_emptySlot slot member isNew
  simp only [fillSlot, position, require, pure_bind, empty, ← set_slotsOf nodup found]
  exact bind_pure_comp _ _

theorem replaceSlot_slotsOf (nodup : children.Nodup) (member : child ∈ children)
    (isNew : child ∉ delivered) :
    replaceSlot texts children (slotsOf slot children delivered) child convert =
      (fun result => slotsOf (Function.update slot child result) children
        (delivered ++ [child])) <$> convert := by
  obtain ⟨index, position, found, empty⟩ := exists_emptySlot slot member isNew
  simp only [replaceSlot, position, require, pure_bind, empty, ← set_slotsOf nodup found]
  exact bind_pure_comp _ _

theorem countDown_sub (message : String) (child : FrameId) {count : Nat}
    (below : delivered.length < count) :
    countDown message (count - delivered.length) =
      (pure (count - (delivered ++ [child]).length) : EvalM Ptr Value Call Nat) := by
  obtain ⟨rest, isRest⟩ := Nat.exists_eq_succ_of_ne_zero (Nat.sub_ne_zero_of_lt below)
  have isLess : count - (delivered ++ [child]).length = rest := by
    rw [List.length_append, List.length_singleton]
    omega
  rw [isRest, isLess]
  rfl

end Slots

/-! ## What a task gathers -/

/-- The callback of a collection function, how often it is applied and to what, how each of
its results is converted, and what the function makes of them in the order of the elements. -/
structure GatheredCall (Ptr Value Call : Type) where
  func : Ptr
  funcType : Typ
  argType : Typ
  count : Nat
  arg : Nat → EvalM Ptr Value Call Ptr
  Slot : Type
  convert : Ptr → EvalM Ptr Value Call Slot
  finish : List Slot → EvalM Ptr Value Call Ptr

section Gathers

variable (runtime : Runtime Ptr) (handle : Handler (ScopeRequest Ptr Value Call) RaisedError Scope)
  (value : FrameId → Ptr) (before after : FrameId → Scope)

/-- The task receives the values of these children, each in the scope in which its child
ends, and waits for more. -/
inductive NativeTask.Waits : NativeTask Ptr → List FrameId → NativeTask Ptr → Prop where
  | nil (task : NativeTask Ptr) : Waits task [] task
  | snoc {task last next : NativeTask Ptr} {order : List FrameId} {child : FrameId}
      (waits : Waits task order last)
      (receives : (last.receive runtime child (value child)).run handle (before child) =
        (.ok (.wait, next), after child)) : Waits task (order ++ [child]) next

/-- When children have delivered in any order, the next one is converted as the first
would be.  The task then waits, or finishes with the results in the order of the
children, after the last of them. -/
def NativeTask.Gathers (started : NativeTask Ptr) (call : GatheredCall Ptr Value Call)
    (children : List FrameId) : Prop :=
  ∀ (slot : FrameId → call.Slot) (order : List FrameId) (child : FrameId),
    (order ++ [child]).Nodup → (∀ each ∈ order ++ [child], each ∈ children) →
    (∀ each ∈ order,
      (call.convert (value each)).run handle (before each) = (.ok (slot each), after each)) →
    ∃ almost, started.Waits runtime handle value before after order almost ∧
      Prod.fst <$> almost.receive runtime child (value child) = do
        let result ← call.convert (value child)
        if order.length + 1 = children.length then
          NativeStep.return <$> call.finish (children.map (Function.update slot child result))
        else pure .wait

/-- The task performs the call: at once if there is nothing to apply the callback to, and
else by one child for each element. -/
structure NativeTask.Performs (task : NativeTask Ptr) (call : GatheredCall Ptr Value Call)
    (children : List FrameId) : Prop where
  alone : call.count = 0 → Prod.fst <$> task.enter runtime = NativeStep.return <$> call.finish []
  spawns : call.count ≠ 0 → ∃ waiting started,
    (task.enter runtime : EvalM Ptr Value Call _) = pure (.schedule call.count, waiting) ∧
      children.foldlM (fun task child => task.pushScheduledChild child) waiting =
        (pure started : EvalM Ptr Value Call _) ∧
      (∀ index, started.scheduledChildSpec runtime index = do
        nativeApplySpec runtime call.func call.funcType (← call.arg index) call.argType) ∧
      started.Gathers runtime handle value before after call children

end Gathers

section States

variable {runtime : Runtime Ptr} {handle : Handler (ScopeRequest Ptr Value Call) RaisedError Scope}
  {value : FrameId → Ptr} {before after : FrameId → Scope} {call : GatheredCall Ptr Value Call}
  {children : List FrameId}

/-- A task whose state is a function of what has been delivered. -/
theorem gathers_of_states (state : List FrameId → (FrameId → call.Slot) → NativeTask Ptr)
    {started : NativeTask Ptr} (starts : ∀ slot, state [] slot = started)
    (waits : ∀ slot delivered child, (delivered ++ [child]).Nodup →
      (∀ each ∈ delivered ++ [child], each ∈ children) → delivered.length + 1 ≠ children.length →
      (state delivered slot).receive runtime child (value child) = do
        let result ← call.convert (value child)
        return (.wait, state (delivered ++ [child]) (Function.update slot child result)))
    (ends : ∀ slot delivered child, (delivered ++ [child]).Perm children →
      Prod.fst <$> (state delivered slot).receive runtime child (value child) = do
        let result ← call.convert (value child)
        NativeStep.return <$> call.finish (children.map (Function.update slot child result))) :
    started.Gathers runtime handle value before after call children := by
  intro slot order child nodup within converts
  have perm_of_length {order : List FrameId} {child : FrameId} (nodup : (order ++ [child]).Nodup)
      (within : ∀ each ∈ order ++ [child], each ∈ children)
      (length : order.length + 1 = children.length) : (order ++ [child]).Perm children :=
    (List.subperm_of_subset nodup within).perm_of_length_le (by simp [length])
  refine ⟨state order slot, ?_, ?_⟩
  · rw [← starts slot]
    clear starts ends
    induction order using List.reverseRecOn generalizing child with
    | nil => exact .nil _
    | append_singleton order last hypothesis =>
        have shorter := (List.nodup_append.mp nodup).1
        have earlier := fun each member => within each (List.mem_append_left [child] member)
        have isShort : order.length + 1 ≠ children.length := by
          intro length
          have all := perm_of_length shorter earlier length
          exact not_mem_of_nodup nodup (all.mem_iff.mpr (within child (by simp)))
        refine .snoc (hypothesis last shorter earlier
          fun each member => converts each (List.mem_append_left _ member)) ?_
        rw [waits slot order last shorter earlier isShort, run_bind, converts last (by simp)]
        simp only [Function.update_eq_self]
        rfl
  · by_cases length : order.length + 1 = children.length
    · simp only [if_pos length]
      exact ends slot order child (perm_of_length nodup within length)
    · rw [waits slot order child nodup within length, map_bind]
      simp only [if_neg length, map_pure]

theorem fst_return {Task Other : Type} (inject : Task → Other) (alloc : EvalM Ptr Value Call Ptr)
    (task : Task) : Prod.fst <$> Prod.map id inject <$> (do
      return (NativeStep.return (← alloc), task) : EvalM Ptr Value Call _) =
        NativeStep.return <$> alloc := by
  rw [map_bind, map_bind]
  exact (map_eq_pure_bind _ _).symm

theorem foldlM_push (push : List FrameId → NativeTask Ptr)
    (pushes : ∀ more child, ((push more).pushScheduledChild child : EvalM Ptr Value Call _) =
      pure (push (more ++ [child]))) (children more : List FrameId) :
    children.foldlM (fun task child => task.pushScheduledChild child) (push more) =
      (pure (push (more ++ children)) : EvalM Ptr Value Call _) := by
  induction children generalizing more with
  | nil => simp
  | cons child children hypothesis =>
      rw [List.foldlM_cons, pushes, pure_bind, hypothesis, List.append_assoc]
      rfl

variable {Task : Type} {task : NativeTask Ptr} {message : String}

/-- A task that fills and counts its slots. -/
theorem performs_of_slots (inject : Task → NativeTask Ptr) (initial : Task)
    (update : List FrameId → List (Option call.Slot) → Nat → Task)
    (finish : Task → EvalM Ptr Value Call (NativeStep Ptr × Task))
    (fill : List (Option call.Slot) → FrameId → EvalM Ptr Value Call (List (Option call.Slot)))
    (nodup : children.Nodup) (length : children.length = call.count)
    (enters : task.enter runtime = Prod.map id inject <$> if call.count = 0 then
      (do return (.return (← call.finish []), initial) : EvalM Ptr Value Call _)
      else pure (.schedule call.count,
        update [] (List.replicate call.count none) call.count))
    (pushes : ∀ more slots rest child, ((inject (update more slots rest)).pushScheduledChild child :
      EvalM Ptr Value Call _) = pure (inject (update (more ++ [child]) slots rest)))
    (childSpec : ∀ slots rest index,
      (inject (update children slots rest)).scheduledChildSpec runtime index = do
        nativeApplySpec runtime call.func call.funcType (← call.arg index) call.argType)
    (receives : ∀ slots rest child,
      (inject (update children slots rest)).receive runtime child (value child) =
        Prod.map id inject <$> do
          let filled ← fill slots child
          let rest ← countDown message rest
          if rest = 0 then finish (update children filled rest)
          else pure (.wait, update children filled rest))
    (fills : ∀ (slot : FrameId → call.Slot) delivered child, child ∈ children → child ∉ delivered →
      fill (slotsOf slot children delivered) child =
        (fun result => slotsOf (Function.update slot child result) children
          (delivered ++ [child])) <$> call.convert (value child))
    (finishes : ∀ slots : List call.Slot, slots.length = call.count → ∃ last,
      finish (update children (slots.map some) 0) =
        do return (.return (← call.finish slots), last)) :
    task.Performs runtime handle value before after call children where
  alone isEmpty := by
    rw [enters, if_pos isEmpty, fst_return]
  spawns nonempty := by
    refine ⟨_, _, by rw [enters, if_neg nonempty, map_pure]; rfl,
      foldlM_push (inject <| update · _ _) (pushes · _ _ ·) children [],
      childSpec _ _, ?_⟩
    have receive_eq (slot : FrameId → call.Slot) (delivered : List FrameId) (child : FrameId)
        (isNodup : (delivered ++ [child]).Nodup)
        (within : ∀ each ∈ delivered ++ [child], each ∈ children) :
        (inject (update children (slotsOf slot children delivered)
          (call.count - delivered.length))).receive runtime child (value child) =
        (Prod.map id inject <$> do
          let result ← call.convert (value child)
          let filled := slotsOf (Function.update slot child result) children (delivered ++ [child])
          if delivered.length + 1 = children.length then finish (update children filled 0)
          else pure (.wait, update children filled
            (call.count - (delivered ++ [child]).length))) := by
      have isNew := not_mem_of_nodup isNodup
      have bound := (List.subperm_of_subset isNodup within).length_le
      rw [List.length_append, List.length_singleton] at bound
      rw [receives, fills slot delivered child (within child (by simp)) isNew]
      simp only [bind_map_left, pure_bind,
        countDown_sub message child (show delivered.length < call.count by omega)]
      congr 2
      funext result
      by_cases isLast : delivered.length + 1 = children.length
      · rw [if_pos isLast, List.length_append, List.length_singleton, isLast, length, Nat.sub_self,
          if_pos rfl]
      · rw [if_neg isLast, if_neg (by rw [List.length_append, List.length_singleton]; omega)]
    refine gathers_of_states (fun delivered slot => inject (update children
      (slotsOf slot children delivered) (call.count - delivered.length))) (fun slot => ?_)
      (fun slot delivered child isNodup within isShort => ?_)
      (fun slot delivered child isPerm => ?_)
    · rw [slotsOf_nil, length]
      rfl
    · rw [receive_eq slot delivered child isNodup within, map_bind]
      simp only [if_neg isShort, map_pure]
      rfl
    · have isLast : delivered.length + 1 = children.length := by simpa using isPerm.length_eq
      rw [receive_eq slot delivered child (isPerm.nodup_iff.mpr nodup)
        (fun each member => isPerm.mem_iff.mp member), Functor.map_map, map_bind]
      congr 1
      funext result
      obtain ⟨last, isFinish⟩ := finishes (children.map (Function.update slot child result))
        (by rw [List.length_map, length])
      rw [if_pos isLast, slotsOf_all (fun each member => isPerm.mem_iff.mpr member), isFinish,
        map_bind]
      exact (map_eq_pure_bind _ _).symm

end States

/-! ## Each task -/

/-- The items whose flags are set. -/
def keptBy {Item : Type} (items : List Item) (flags : List Bool) : List Item :=
  ((items.zip flags).filter Prod.snd).map Prod.fst

/-- The number of the flags that are set, or the items by their flags. -/
def predicateResult (values : ListItems Ptr) :
    NativeSequencePredicateMode → List Bool → EvalM Ptr Value Call Ptr
  | .count, flags => ask (.allocInteger .u64 (flags.count true))
  | .partition, flags => do
      let items ← ((List.range values.len).zip flags).mapM fun item =>
        return (← ask (.listItem values item.1), item.2)
      let matching ← ask (.allocList ((items.filter Prod.snd).map Prod.fst))
      let rejected ← ask (.allocList ((items.filter (!·.2)).map Prod.fst))
      ask (.allocTuple [matching, rejected])

namespace NativeTask

/-- The call that a task performs, if it gathers the results of its children. -/
def gatheredCall : NativeTask Ptr → Option (GatheredCall Ptr Value Call)
  | sequenceMap task =>
      some ⟨task.func, task.funcType, task.elemType, task.values.len,
        fun index => ask (.listItem task.values index), Ptr, pure,
        fun results => ask (.allocList results)⟩
  | sequenceFilter task =>
      some ⟨task.func, task.funcType, task.elemType, task.values.len,
        fun index => ask (.listItem task.values index), Bool,
        fun result => ask (.asBool result), fun flags => do
          ask (.allocList (← (keptBy (List.range task.values.len) flags).mapM fun index =>
            ask (.listItem task.values index)))⟩
  | sequencePredicate task =>
      some ⟨task.func, task.funcType, task.elemType, task.values.len,
        fun index => ask (.listItem task.values index), Bool,
        fun result => ask (.asBool result), predicateResult task.values task.mode⟩
  | sequenceFilterMap task =>
      some ⟨task.func, task.funcType, task.elemType, task.values.len,
        fun index => ask (.listItem task.values index), Option Ptr,
        optionValuePtr, fun options => ask (.allocList options.reduceOption)⟩
  | sequenceFlatMap task =>
      some ⟨task.func, task.funcType, task.elemType, task.values.len,
        fun index => ask (.listItem task.values index), List Ptr,
        fun result => ask (.asList result), fun lists => ask (.allocList lists.flatten)⟩
  | dictMap task =>
      some ⟨task.func, task.funcType, task.elemType, task.entries.length,
        fun index => Prod.snd <$> require "native dict map child index out of bounds"
          task.entries[index]?, Ptr, pure,
        fun results => ask (.allocDict (collectMap ((task.entries.map Prod.fst).zip results)))⟩
  | dictEntryMap task =>
      some ⟨task.func, task.funcType, task.entryType, task.args.length,
        fun index => require "native dict entry map child index out of bounds" task.args[index]?,
        Ptr, pure, fun results => do
          ask (.allocDict (← NativeDictEntryMap.collectPairs results []))⟩
  | dictFilter task =>
      some ⟨task.func, task.funcType, task.argType, task.entries.length,
        fun index => require "native dict filter child index out of bounds" task.args[index]?, Bool,
        fun result => ask (.asBool result),
        fun flags => ask (.allocDict (collectMap (keptBy task.entries flags)))⟩
  | dictFilterMap task =>
      some ⟨task.func, task.funcType, task.elemType, task.entries.length,
        fun index => Prod.snd <$> require "native dict filter_map child index out of bounds"
          task.entries[index]?, Option Ptr, optionValuePtr,
        fun options => ask (.allocDict (collectMap
          ((task.entries.zip options).filterMap fun entry => entry.2.map (entry.1.1, ·))))⟩
  | dictUpdate task =>
      some ⟨task.func, task.funcType, task.optionType, 1,
        fun index => if index ≠ 0 then internal "native dict update child index out of bounds"
          else pure task.arg, Option Ptr, optionValuePtr, fun options => ask (.allocDict
          (match options.head?.join with
          | some value => task.entries.insert task.key value
          | none => task.entries.filter (·.1 ≠ task.key)))⟩
  | _ => none

/-- No result has been counted yet. -/
def Fresh : NativeTask Ptr → Prop
  | sequencePredicate task => task.matched = []
  | _ => True

end NativeTask

section Tasks

variable {runtime : Runtime Ptr} {handle : Handler (ScopeRequest Ptr Value Call) RaisedError Scope}
  {value : FrameId → Ptr} {before after : FrameId → Scope} {children : List FrameId}

theorem keptBy_nil {Item : Type} (items : List Item) : keptBy items [] = [] := by
  simp [keptBy]

theorem keptBy_cons {Item : Type} (item : Item) (items : List Item) (flag : Bool)
    (flags : List Bool) : keptBy (item :: items) (flag :: flags) =
      if flag then item :: keptBy items flags else keptBy items flags := by
  cases flag <;> rfl

theorem keptItems_map_some (values : ListItems Ptr) (flags : List Bool) (start : Nat) :
    (NativeSequenceFilter.keptItems values start (flags.map some) : EvalM Ptr Value Call _) =
      (keptBy (List.range' start flags.length) flags).mapM fun index =>
        ask (.listItem values index) := by
  induction flags generalizing start with
  | nil => rfl
  | cons flag flags hypothesis =>
      cases flag with
      | true =>
          rw [List.map_cons, NativeSequenceFilter.keptItems, hypothesis, List.length_cons,
            List.range'_succ, keptBy_cons, if_pos rfl, List.mapM_cons]
      | false => exact hypothesis (start + 1)

theorem partition_map_some (values : ListItems Ptr) (flags : List Bool) {count : Nat}
    (bound : count ≤ flags.length) :
    (NativeSequencePredicate.partition values (flags.map some) count : EvalM Ptr Value Call _) = do
      let items ← ((List.range count).zip (flags.take count)).mapM fun item =>
        return (← ask (.listItem values item.1), item.2)
      return ((items.filter Prod.snd).map Prod.fst, (items.filter (!·.2)).map Prod.fst) := by
  induction count with
  | zero => rfl
  | succ count hypothesis =>
      have isFlag : (flags.map some)[count]?.join = some flags[count] := by
        rw [List.getElem?_map, List.getElem?_eq_getElem bound]
        rfl
      rw [NativeSequencePredicate.partition, hypothesis (by omega), List.range_succ,
        List.take_succ_eq_append_getElem bound, List.zip_append (by simp; omega), List.mapM_append]
      simp only [isFlag]
      cases flags[count] <;> simp

/-- The loop of `dict_filter_map` over the entries and the converted results. -/
def collectSome (entries : List ((String × Ptr) × Option Ptr)) : SymbolMap Ptr :=
  entries.foldl
    (fun output entry =>
      match entry.2 with
      | some value => output.insert entry.1.1 value
      | none => output) []

theorem collectSome_eq (entries : List ((String × Ptr) × Option Ptr)) :
    collectSome entries =
      collectMap (entries.filterMap fun entry => entry.2.map (entry.1.1, ·)) := by
  rw [collectSome, collectMap, List.foldl_filterMap]
  congr 1
  funext output entry
  cases entry.2 <;> rfl

theorem finish_predicate (task : NativeSequencePredicate Ptr) {flags : List Bool}
    (isMatched : task.matched = flags.map some) (count : flags.length = task.values.len) :
    (task.finish : EvalM Ptr Value Call _) =
      NativeStep.return <$> predicateResult task.values task.mode flags := by
  rw [NativeSequencePredicate.finish, isMatched]
  cases task.mode with
  | count =>
      have isCount : ((flags.map some).filter (· == some true)).length = flags.count true := by
        rw [List.filter_map, List.length_map, List.count_eq_length_filter]
        rfl
      simp only [isCount, predicateResult]
      exact (map_eq_pure_bind _ _).symm
  | partition =>
      simp only [predicateResult, ← count, partition_map_some task.values flags le_rfl,
        List.take_length, bind_assoc, pure_bind, map_bind]
      rfl

variable (runtime handle value before after children) in
/-- The task performs the call that it stands for. -/
def NativeTask.Ready (task : NativeTask Ptr) : Prop :=
  ∀ call : GatheredCall Ptr Value Call, task.gatheredCall = some call → children.Nodup →
    children.length = call.count →
      task.Performs runtime handle value before after call children

theorem ready_sequenceMap (task : NativeSequenceMap Ptr) :
    (NativeTask.sequenceMap task).Ready runtime handle value before after children := by
  rintro call ⟨⟩ nodup length
  refine performs_of_slots .sequenceMap task
    (fun children output remaining => { task with children, output, remaining })
    (fun task => do
      let output ← completedValues NativeSequenceMap.texts task.output
      return (.return (← allocNativeSequence output task.shape), task))
    (fun output child => fillSlot NativeSequenceMap.texts children output child
      (pure (value child)))
    nodup length ?_ (fun _ _ _ _ => rfl) (fun _ _ _ => rfl) (fun _ _ _ => rfl)
    (fun _ _ _ member isNew => fillSlot_slotsOf nodup member isNew) ?_
  · rfl
  · intro slots _
    simp only [completedValues, allFilled_map_some]
    exact ⟨_, rfl⟩

theorem ready_sequenceFilter (task : NativeSequenceFilter Ptr) :
    (NativeTask.sequenceFilter task).Ready runtime handle value before after children := by
  rintro call ⟨⟩ nodup length
  refine performs_of_slots .sequenceFilter task
    (fun children keep remaining => { task with children, keep, remaining })
    (fun task => do
      let output ← NativeSequenceFilter.keptItems task.values 0 task.keep
      return (.return (← allocNativeSequence output task.shape), task))
    (fun keep child => fillSlot NativeSequenceFilter.texts children keep child
      (ask (.asBool (value child))))
    nodup length ?_ (fun _ _ _ _ => rfl) (fun _ _ _ => rfl) (fun _ _ _ => rfl)
    (fun _ _ _ member isNew => fillSlot_slotsOf nodup member isNew) ?_
  · simp only [keptBy_nil]
    rfl
  · intro flags count
    simp only [keptItems_map_some, count, ← List.range_eq_range', bind_assoc]
    exact ⟨_, rfl⟩

theorem ready_sequencePredicate (task : NativeSequencePredicate Ptr)
    (fresh : (NativeTask.sequencePredicate task).Fresh) :
    (NativeTask.sequencePredicate task).Ready runtime handle value before after children := by
  rintro call ⟨⟩ nodup length
  refine performs_of_slots .sequencePredicate task
    (fun children matched remaining => { task with children, matched, remaining })
    (fun task => do return (← task.finish, task))
    (fun matched child => fillSlot NativeSequencePredicate.texts children matched child
      (ask (.asBool (value child))))
    nodup length ?_ (fun _ _ _ _ => rfl) (fun _ _ _ => rfl) (fun _ _ _ => rfl)
    (fun _ _ _ member isNew => fillSlot_slotsOf nodup member isNew) ?_
  · rw [NativeTask.enter, NativeSequencePredicate.enter]
    by_cases isEmpty : task.values.len = 0
    · rw [if_pos isEmpty, if_pos isEmpty, finish_predicate task (fresh.trans List.map_nil.symm)
        isEmpty.symm, bind_map_left]
    · rw [if_neg isEmpty, if_neg isEmpty]
  · intro flags count
    rw [finish_predicate { task with children, matched := flags.map some, remaining := 0 } rfl
      count, bind_map_left]
    exact ⟨_, rfl⟩

theorem ready_sequenceFilterMap (task : NativeSequenceFilterMap Ptr) :
    (NativeTask.sequenceFilterMap task).Ready runtime handle value before after children := by
  rintro call ⟨⟩ nodup length
  refine performs_of_slots .sequenceFilterMap task
    (fun children output remaining => { task with children, output, remaining })
    (fun task => do
      let output ← completedValues NativeSequenceFilterMap.texts task.output
      return (.return (← allocNativeSequence output.reduceOption task.shape), task))
    (fun output child => fillSlot NativeSequenceFilterMap.texts children output child
      (optionValuePtr (value child)))
    nodup length ?_ (fun _ _ _ _ => rfl) (fun _ _ _ => rfl) (fun _ _ _ => rfl)
    (fun _ _ _ member isNew => fillSlot_slotsOf nodup member isNew) ?_
  · rfl
  · intro slots _
    simp only [completedValues, allFilled_map_some]
    exact ⟨_, rfl⟩

theorem ready_sequenceFlatMap (task : NativeSequenceFlatMap Ptr) :
    (NativeTask.sequenceFlatMap task).Ready runtime handle value before after children := by
  rintro call ⟨⟩ nodup length
  refine performs_of_slots .sequenceFlatMap task
    (fun children output remaining => { task with children, output, remaining })
    (fun task => do
      let output ← completedValues NativeSequenceFlatMap.texts task.output
      return (.return (← allocNativeSequence output.flatten task.shape), task))
    (fun output child => fillSlot NativeSequenceFlatMap.texts children output child
      (nativeFlattenSequence (value child) task.shape))
    nodup length ?_ (fun _ _ _ _ => rfl) (fun _ _ _ => rfl) (fun _ _ _ => rfl)
    (fun _ _ _ member isNew => fillSlot_slotsOf nodup member isNew) ?_
  · rfl
  · intro slots _
    simp only [completedValues, allFilled_map_some]
    exact ⟨_, rfl⟩

theorem ready_dictEntryMap (task : NativeDictEntryMap Ptr) :
    (NativeTask.dictEntryMap task).Ready runtime handle value before after children := by
  rintro call ⟨⟩ nodup length
  refine performs_of_slots .dictEntryMap task
    (fun children output remaining => { task with children, output, remaining })
    (fun task => do
      let results ← completedValues NativeDictEntryMap.texts task.output
      let output ← NativeDictEntryMap.collectPairs results []
      return (.return (← ask (.allocDict output)), task))
    (fun output child => replaceSlot NativeDictEntryMap.texts children output child
      (pure (value child)))
    nodup length ?_ (fun _ _ _ _ => rfl) (fun _ _ _ => rfl) (fun _ _ _ => rfl)
    (fun _ _ _ member isNew => replaceSlot_slotsOf nodup member isNew) ?_
  · rfl
  · intro slots _
    simp only [completedValues, allFilled_map_some, require, pure_bind, bind_assoc]
    exact ⟨_, rfl⟩

theorem ready_dictFilter (task : NativeDictFilter Ptr)
    (startable : (NativeTask.dictFilter task).Startable) :
    (NativeTask.dictFilter task).Ready runtime handle value before after children := by
  rintro call ⟨⟩ nodup length
  refine performs_of_slots .dictFilter task
    (fun children keep remaining => { task with children, keep, remaining })
    (fun task => do
      let keep ← completedValues NativeDictFilter.texts (task.keep.take task.entries.length)
      let output := (task.entries.zip keep).foldl
        (fun (output : SymbolMap Ptr) entry =>
          if entry.2 then output.insert entry.1.1 entry.1.2 else output) []
      return (.return (← ask (.allocDict output)), task))
    (fun keep child => replaceSlot NativeDictFilter.texts children keep child
      (ask (.asBool (value child))))
    nodup length ?_ (fun _ _ _ _ => rfl) (fun _ _ _ => rfl) (fun _ _ _ => rfl)
    (fun _ _ _ member isNew => replaceSlot_slotsOf nodup member isNew) ?_
  · rw [NativeTask.enter, NativeDictFilter.enter, if_neg (not_not.mpr (show _ = _ from startable))]
    simp only [keptBy_nil]
    rfl
  · intro flags (count : flags.length = task.entries.length)
    simp only [← List.map_take, ← count, List.take_length, completedValues, allFilled_map_some]
    rw [keptBy, collectMap, List.foldl_map, List.foldl_filter]
    exact ⟨_, rfl⟩

theorem ready_dictFilterMap (task : NativeDictFilterMap Ptr) :
    (NativeTask.dictFilterMap task).Ready runtime handle value before after children := by
  rintro call ⟨⟩ nodup length
  refine performs_of_slots .dictFilterMap task
    (fun children output remaining => { task with children, output, remaining })
    (fun task => do
      let values ← completedValues NativeDictFilterMap.texts (task.output.take task.entries.length)
      return (.return (← ask (.allocDict (collectSome (task.entries.zip values)))), task))
    (fun output child => replaceSlot NativeDictFilterMap.texts children output child
      (optionValuePtr (value child)))
    nodup length ?_ (fun _ _ _ _ => rfl) (fun _ _ index => by
      cases isEntry : task.entries[index]? <;>
        simp only [NativeTask.scheduledChildSpec, NativeDictFilterMap.childSpec, isEntry] <;> rfl)
    (fun _ _ _ => rfl)
    (fun _ _ _ member isNew => replaceSlot_slotsOf nodup member isNew) ?_
  · simp only [List.zip_nil_right, List.filterMap_nil]
    rfl
  · intro options (count : options.length = task.entries.length)
    simp only [← List.map_take, ← count, List.take_length, completedValues, allFilled_map_some,
      ← collectSome_eq]
    exact ⟨_, rfl⟩

/-- The name of a child is that of its entry. -/
theorem map_name (nodup : children.Nodup) {names : List String}
    (length : children.length = names.length) :
    children.map (fun child => names.getD (children.idxOf child) "") = names := by
  refine List.ext_getElem (by rw [List.length_map, length]) fun index _ bound => ?_
  rw [List.getElem_map, nodup.idxOf_getElem, List.getD_eq_getElem?_getD,
    List.getElem?_eq_getElem bound, Option.getD_some]

/-- The results under the names of their children. -/
def listing (name : FrameId → String) (slot : FrameId → Slot) (delivered : List FrameId) :
    List (String × Slot) :=
  delivered.map fun each => (name each, slot each)

theorem fst_listing (name : FrameId → String) (slot : FrameId → Slot) (delivered : List FrameId) :
    (listing name slot delivered).map Prod.fst = delivered.map name := by
  rw [listing, List.map_map]
  rfl

theorem listing_snoc (name : FrameId → String) (slot : FrameId → Slot) {delivered : List FrameId}
    {child : FrameId} (isNew : child ∉ delivered) (result : Slot) :
    listing name (Function.update slot child result) (delivered ++ [child]) =
      listing name slot delivered ++ [(name child, result)] := by
  rw [listing, List.map_append, List.map_singleton, Function.update_self]
  congr 1
  refine List.map_congr_left fun each member => ?_
  rw [Function.update_of_ne (ne_of_mem_of_not_mem member isNew)]

theorem ready_dictMap (task : NativeDictMap Ptr)
    (startable : (NativeTask.dictMap task).Startable) :
    (NativeTask.dictMap task).Ready runtime handle value before after children := by
  rintro call ⟨⟩ nodup (length : children.length = task.entries.length)
  let name child := (task.entries.map Prod.fst).getD (children.idxOf child) ""
  have names : children.map name = task.entries.map Prod.fst :=
    map_name nodup (by rw [length, List.length_map])
  let state (delivered : List FrameId) (slot : FrameId → Ptr) : NativeDictMap Ptr :=
    { task with
      children, output := collectMap (listing name slot delivered),
      remaining := task.entries.length - delivered.length }
  have receive_eq (slot : FrameId → Ptr) (delivered : List FrameId) (child : FrameId)
      (isNodup : (delivered ++ [child]).Nodup)
      (within : ∀ each ∈ delivered ++ [child], each ∈ children) :
      ((state delivered slot).receive child (value child) : EvalM Ptr Value Call _) =
        let next := state (delivered ++ [child]) (Function.update slot child (value child))
        if delivered.length + 1 = children.length then
          do return (.return (← ask (.allocDict next.output)), next)
        else pure (.wait, next) := by
    have isNew := not_mem_of_nodup isNodup
    obtain ⟨index, position, found, -⟩ := exists_emptySlot slot (within child (by simp)) isNew
    obtain ⟨subset, isPerm, isSublist⟩ := List.subperm_of_subset isNodup within
    have bound : delivered.length + 1 ≤ children.length := by
      simpa [isPerm.length_eq] using isSublist.length_le
    have distinct : ((delivered ++ [child]).map name).Nodup :=
      (isPerm.map name).nodup_iff.mp ((isSublist.map name).nodup (names ▸ startable))
    rw [List.map_append, List.nodup_append] at distinct
    have isEntry : (task.entries[index]?).map Prod.fst = some (name child) := by
      rw [← List.getElem?_map, ← names, List.getElem?_map, found, Option.map_some]
    obtain ⟨entry, isEntry, isName⟩ := Option.map_eq_some_iff.mp isEntry
    have isAbsent : ¬((collectMap (listing name slot delivered)).lookup (name child)).isSome := by
      rw [isSome_lookup_iff, ((collectMap_perm (fst_listing .. ▸ distinct.1)).map _).mem_iff,
        fst_listing]
      exact fun member => distinct.2.2 (name child) member (name child) (by simp) rfl
    have inserted : (collectMap (listing name slot delivered)).insert (name child) (value child) =
        collectMap (listing name (Function.update slot child (value child))
          (delivered ++ [child])) := by
      rw [listing_snoc name slot isNew, collectMap, collectMap, List.foldl_append]
      rfl
    simp only [state, NativeDictMap.receive, position, isEntry, require, pure_bind, isName,
      if_neg isAbsent, inserted, countDown_sub _ child (length ▸ bound)]
    by_cases isLast : delivered.length + 1 = children.length
    · rw [if_pos isLast, if_pos (by simp; omega)]
    · rw [if_neg isLast, if_neg (by simp; omega)]
  refine ⟨fun isEmpty => ?_, fun nonempty => ⟨_, _, ?_, foldlM_push
    (fun more => .dictMap
      { task with children := more, output := [], remaining := task.entries.length })
    (fun _ _ => rfl) children [], fun index => ?_, gathers_of_states
    (fun delivered slot => .dictMap (state delivered slot)) (fun slot => rfl) ?_ ?_⟩⟩
  · rw [NativeTask.enter, NativeDictMap.enter, if_pos isEmpty, fst_return]
    simp only [List.zip_nil_right]
    rfl
  · rw [NativeTask.enter, NativeDictMap.enter, if_neg nonempty]
    rfl
  · cases isEntry : task.entries[index]? <;>
      simp only [NativeTask.scheduledChildSpec, NativeDictMap.childSpec, isEntry] <;> rfl
  · intro slot delivered child isNodup within isShort
    rw [NativeTask.receive, receive_eq slot delivered child isNodup within, if_neg isShort]
    rfl
  · intro slot delivered child isPerm
    have isLast : delivered.length + 1 = children.length := by simpa using isPerm.length_eq
    have isListing (slot : FrameId → Ptr) :
        (task.entries.map Prod.fst).zip (children.map slot) = listing name slot children := by
      rw [← names, List.zip_map']
      rfl
    have same (slot : FrameId → Ptr) : collectMap (listing name slot (delivered ++ [child])) =
        collectMap (listing name slot children) :=
      collectMap_congr (fst_listing .. ▸ (isPerm.map name).nodup_iff.mpr (names ▸ startable))
        (isPerm.map _)
    rw [NativeTask.receive, receive_eq slot delivered child (isPerm.nodup_iff.mpr nodup)
      (fun each member => isPerm.mem_iff.mp member), if_pos isLast, fst_return]
    simp only [pure_bind, isListing, ← same]
    rfl

theorem ready_dictUpdate (task : NativeDictUpdate Ptr) :
    (NativeTask.dictUpdate task).Ready runtime handle value before after children := by
  rintro call ⟨⟩ nodup length
  obtain ⟨only, rfl⟩ := List.length_eq_one_iff.mp length
  refine ⟨fun isEmpty => absurd isEmpty one_ne_zero, fun _ => ⟨_, _, rfl, rfl, ?_, ?_⟩⟩
  · intro index
    by_cases isFirst : index ≠ 0
    · simp only [NativeTask.scheduledChildSpec, NativeDictUpdate.childSpec, if_pos isFirst]
      rfl
    · simp only [NativeTask.scheduledChildSpec, NativeDictUpdate.childSpec, if_neg isFirst]
      rfl
  · refine gathers_of_states (fun _ _ => _) (fun _ => rfl) ?_ ?_
    · intro slot delivered child isNodup within isShort
      have bound := (List.subperm_of_subset isNodup within).length_le
      exact absurd (by simpa using bound) isShort
    · intro slot delivered child isPerm
      obtain ⟨rfl, rfl⟩ : delivered = [] ∧ child = only := by
        simpa [List.append_eq_cons_iff] using List.perm_singleton.mp isPerm
      rw [NativeTask.receive, NativeDictUpdate.receive, if_neg (by simp), Functor.map_map, map_bind]
      simp only [List.map_cons, Function.update_self]
      congr 1
      funext result
      cases result <;> simp

/-- However the children of a collection task take turns with each other and with other
frames, the task makes of their results what its function makes of them in the order of
the elements. -/
theorem collectionTask_performs {task : NativeTask Ptr} (startable : task.Startable)
    (fresh : task.Fresh) {call : GatheredCall Ptr Value Call}
    (isCall : task.gatheredCall = some call) (nodup : children.Nodup)
    (length : children.length = call.count) :
    task.Performs runtime handle value before after call children := by
  suffices ready : task.Ready runtime handle value before after children from
    ready call isCall nodup length
  cases task with
  | sequenceMap task => exact ready_sequenceMap task
  | sequenceFilter task => exact ready_sequenceFilter task
  | sequencePredicate task => exact ready_sequencePredicate task fresh
  | sequenceFilterMap task => exact ready_sequenceFilterMap task
  | sequenceFlatMap task => exact ready_sequenceFlatMap task
  | dictMap task => exact ready_dictMap task startable
  | dictEntryMap task => exact ready_dictEntryMap task
  | dictFilter task => exact ready_dictFilter task startable
  | dictFilterMap task => exact ready_dictFilterMap task
  | dictUpdate task => exact ready_dictUpdate task
  | _ => cases isCall

end Tasks

/-- A runtime without functions. -/
def bareRuntime : Runtime Nat where
  unify _ _ := .ok []
  classMethods _ := none
  resolveTypeclass _ _ _ := .error (.nativeType "" "")
  resolveNatives _ _ := .ok none
  resolveUnique _ _ := .error (.nativeType "" "")
  callableById _ := none
  typeclassValues := []
  nativeValues := []

/-- A map over the two entries of a dictionary. -/
theorem collectionTask_performs_two : ∃ call : GatheredCall Nat Unit Unit,
    (NativeTask.dictMap
      ⟨0, .tuple [], .tuple [], [("a", 1), ("b", 2)], [], [], 0⟩).gatheredCall = some call ∧
    (NativeTask.dictMap ⟨0, .tuple [], .tuple [], [("a", 1), ("b", 2)], [], [], 0⟩).Performs
      bareRuntime (fun _ _ scope => (.error (.nativeType "" ""), scope)) (fun child => child)
      (fun child => child) (fun child => child) call [7, 5] := by
  refine ⟨_, rfl, collectionTask_performs ?_ ?_ rfl (by decide) rfl⟩
  · exact (by decide : (["a", "b"] : List String).Nodup)
  · trivial

end RexLang
