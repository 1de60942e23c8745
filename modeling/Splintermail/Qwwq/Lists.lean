/-
This file proves when the stack of the qwwq engine is one unbounded stack.

Everything but the popping of many values agrees with a plain list of values. Many values
come off in their order if and only if they lie in one chunk, which the depth below them
decides. A list literal and a for loop pop what their body put in this way, so their lists
are right if and only if what the body put does not cross the end of a chunk.
-/

import Splintermail.Qwwq.Stack
import Mathlib.Data.List.Induction
import Mathlib.Logic.Nontrivial.Defs

namespace Splintermail

open List

namespace QwEngine

variable {Val Rest : Type} {engine : QwEngine Val Rest}

/-! ### Where chunks end -/

/-- Values that are put from some depth on lie in one chunk. -/
def Fits (depth count : Nat) : Prop := count = 0 ∨ depth % qwStackCap + count ≤ qwStackCap

instance (depth count : Nat) : Decidable (Fits depth count) := inferInstanceAs (Decidable (_ ∨ _))

theorem Sound.fits_iff (sound : Sound engine) {vals popped : List Val}
    (holds : engine.contents = vals ++ popped) :
    popped.length ≤ engine.topLen ↔ Fits vals.length popped.length := by
  have depth : engine.contents.length = vals.length + popped.length := by
    rw [holds, length_append]
  rw [sound.topLen_eq, depth, Fits]
  simp only [qwStackCap]
  split_ifs <;> omega

/-! ### An engine with some values -/

/-- An engine on which some values were put. -/
def ofList (rest : Rest) (vals : List Val) : QwEngine Val Rest :=
  vals.foldl qwStackPut ⟨[], none, rest⟩

theorem Sound.putAll (sound : Sound engine) (vals : List Val) :
    Sound (vals.foldl qwStackPut engine) ∧
      (vals.foldl qwStackPut engine).contents = engine.contents ++ vals := by
  induction vals generalizing engine with
  | nil => exact ⟨sound, (append_nil _).symm⟩
  | cons val vals ih =>
    obtain ⟨soundPut, put⟩ := sound.put val
    obtain ⟨soundAll, all⟩ := ih soundPut
    exact ⟨soundAll, by rw [foldl_cons, all, put, append_assoc]; rfl⟩

theorem ofList_spec (rest : Rest) (vals : List Val) :
    Sound (ofList rest vals) ∧ (ofList rest vals).contents = vals :=
  @Sound.putAll Val Rest ⟨[], none, rest⟩ ⟨nofun, nofun, nofun⟩ vals

/-! ### Operations -/

/-- What is done with a stack. -/
inductive StackOp (Val : Type) where
  | put (val : Val)
  | pop
  | peek
  | len
  | popN (len : Nat)

/-- What comes back. -/
inductive StackReply (Val : Type) where
  | done
  | vals (vals : List Val)
  | len (len : Nat)
  deriving DecidableEq

/-- An operation of the engine. -/
def operate (engine : QwEngine Val Rest) :
    StackOp Val → Except QwStop (StackReply Val × QwEngine Val Rest)
  | .put val => .ok (.done, engine.qwStackPut val)
  | .pop => do
    let (val, engine) ← engine.qwStackPop
    return (.vals [val], engine)
  | .peek => do
    let val ← engine.qwStackPeek
    return (.vals [val], engine)
  | .len => .ok (.len engine.qwStackLen, engine)
  | .popN len => do
    let (vals, engine) ← engine.qwStackPopN len
    return (.vals vals, engine)

/-- The same operation of one unbounded stack. -/
def plain (stack : List Val) : StackOp Val → Except QwStop (StackReply Val × List Val)
  | .put val => .ok (.done, stack ++ [val])
  | .pop =>
    match stack.getLast? with
    | none => .error .stackUnderflow
    | some val => .ok (.vals [val], stack.dropLast)
  | .peek =>
    match stack.getLast? with
    | none => .error .stackUnderflow
    | some val => .ok (.vals [val], stack)
  | .len => .ok (.len stack.length, stack)
  | .popN len =>
    if stack.length < len then .error .stackUnderflow
    else .ok (.vals (stack.drop (stack.length - len)), stack.take (stack.length - len))

/-- The replies to operations, and how they end. -/
def replies {Stack : Type} (operate : Stack → StackOp Val → Except QwStop (StackReply Val × Stack)) :
    Stack → List (StackOp Val) → List (StackReply Val) × Option QwStop
  | _, [] => ([], none)
  | stack, op :: ops =>
    match operate stack op with
    | .error stop => ([], some stop)
    | .ok (reply, stack) =>
      let (more, stop) := replies operate stack ops
      (reply :: more, stop)

/-- Many values are only popped where they lie in one chunk. -/
def Whole (stack : List Val) : StackOp Val → Prop
  | .popN len => Fits (stack.length - len) len
  | _ => True

/-- Many values are only popped so throughout. -/
def Wholly : List Val → List (StackOp Val) → Prop
  | _, [] => True
  | stack, op :: ops => Whole stack op ∧ ∀ reply next, plain stack op = .ok (reply, next) → Wholly next ops

theorem exists_concat {stack : List Val} (nonempty : stack ≠ []) :
    ∃ vals val, stack = vals ++ [val] :=
  ⟨stack.dropLast, stack.getLast nonempty, (dropLast_append_getLast nonempty).symm⟩

theorem Sound.stack_nil (sound : Sound engine) (empty : engine.contents = []) :
    engine.stack = [] := by
  match chunked : engine.stack with
  | [] => rfl
  | top :: below =>
    have sizes := sound.top top (by simp [chunked])
    rw [contents_cons chunked, append_eq_nil_iff] at empty
    rw [empty.2] at sizes
    exact absurd sizes.1 (Nat.lt_irrefl 0)

/-- An operation that pops values of one chunk does what it does to one unbounded stack. -/
theorem Sound.operate (sound : Sound engine) (op : StackOp Val) (whole : Whole engine.contents op) :
    match plain engine.contents op with
    | .error stop => engine.operate op = .error stop
    | .ok (reply, stack) =>
      ∃ next, engine.operate op = .ok (reply, next) ∧ Sound next ∧ next.contents = stack := by
  cases op with
  | put val => exact ⟨_, rfl, sound.put val⟩
  | len => exact ⟨engine, by rw [QwEngine.operate, qwStackLen_eq], sound, rfl⟩
  | pop =>
    by_cases empty : engine.contents = []
    · simp [plain, empty, QwEngine.operate, qwStackPop, sound.stack_nil empty, bind, Except.bind]
    · obtain ⟨vals, val, holds⟩ := exists_concat empty
      obtain ⟨next, popped, soundNext, contentsNext⟩ := sound.pop holds
      simp only [plain, holds, getLast?_concat, dropLast_concat]
      exact ⟨next, by simp [QwEngine.operate, popped, bind, Except.bind, pure, Except.pure],
        soundNext, contentsNext⟩
  | peek =>
    by_cases empty : engine.contents = []
    · simp [plain, empty, QwEngine.operate, qwStackPeek, sound.stack_nil empty, bind, Except.bind]
    · obtain ⟨vals, val, holds⟩ := exists_concat empty
      have peeked := sound.peek holds
      simp only [plain, holds, getLast?_concat]
      exact ⟨engine, by simp [QwEngine.operate, peeked, bind, Except.bind, pure, Except.pure], sound,
        holds⟩
  | popN len =>
    simp only [plain]
    split_ifs with more
    · simp [QwEngine.operate, sound.popN_underflow more, bind, Except.bind]
    · have holds := (take_append_drop (engine.contents.length - len) engine.contents).symm
      have count : (engine.contents.drop (engine.contents.length - len)).length = len := by
        rw [length_drop]
        omega
      have depth : (engine.contents.take (engine.contents.length - len)).length =
          engine.contents.length - len := by
        rw [length_take]
        omega
      have inside := (sound.fits_iff holds).mpr (by rw [depth, count]; exact whole)
      obtain ⟨next, popped, soundNext, contentsNext⟩ := sound.popN holds inside
      rw [count] at popped
      exact ⟨next, by simp [QwEngine.operate, popped, bind, Except.bind, pure, Except.pure],
        soundNext, contentsNext⟩

theorem Sound.replies (sound : Sound engine) (ops : List (StackOp Val))
    (wholly : Wholly engine.contents ops) :
    replies QwEngine.operate engine ops = replies plain engine.contents ops := by
  induction ops generalizing engine with
  | nil => rfl
  | cons op ops ih =>
    obtain ⟨whole, later⟩ := wholly
    have agrees := sound.operate op whole
    rw [QwEngine.replies, QwEngine.replies]
    cases outcome : plain engine.contents op with
    | error stop =>
      rw [outcome] at agrees
      rw [agrees]
    | ok replied =>
      obtain ⟨reply, stack⟩ := replied
      rw [outcome] at agrees
      obtain ⟨next, result, soundNext, rfl⟩ := agrees
      rw [result]
      simp only [ih soundNext (later reply _ outcome)]

/-! ### Lists -/

section

variable {listOf : List Val → Val} {toList : Val → Option (List Val)}

/-- The values of one chunk become a list in their order. -/
theorem Sound.collect (sound : Sound engine) {vals popped : List Val}
    (holds : engine.contents = vals ++ popped) (fits : Fits vals.length popped.length) :
    ∃ next, engine.collect listOf vals.length = .ok next ∧ Sound next ∧
      next.contents = vals ++ [listOf popped] := by
  have count : engine.qwStackLen - vals.length = popped.length := by
    rw [qwStackLen_eq, holds, length_append]
    omega
  obtain ⟨middle, result, soundMiddle, rfl⟩ := sound.popN holds ((sound.fits_iff holds).mpr fits)
  obtain ⟨soundPut, put⟩ := soundMiddle.put (listOf popped)
  refine ⟨_, ?_, soundPut, put⟩
  rw [QwEngine.collect, count, result]
  rfl

/-- Two values next to each other that come off in the wrong order. -/
theorem not_fits_apart [Nontrivial Val] {depth count : Nat} (crosses : ¬ Fits depth count) :
    ∃ vals popped : List Val, vals.length = depth ∧ popped.length = count ∧
      ∀ (engine : QwEngine Val Rest) (next : QwEngine Val Rest), Sound engine →
        engine.contents = vals ++ popped →
          engine.qwStackPopN popped.length ≠ .ok (popped, next) := by
  obtain ⟨first, other, apart⟩ := exists_pair_ne Val
  have some : count ≠ 0 := fun zero => crosses (.inl zero)
  obtain ⟨more, rfl⟩ := Nat.exists_eq_succ_of_ne_zero some
  refine ⟨replicate depth other, first :: replicate more other, by simp, by simp, ?_⟩
  intro engine next sound holds result
  have straddles : engine.topLen < (first :: replicate more other).length := by
    refine Nat.lt_of_not_le fun inside => crosses ?_
    simpa using (sound.fits_iff holds).mp inside
  have head := sound.popN_head holds straddles result
  have positive : 0 < engine.topLen := by
    rw [sound.topLen_eq, holds, if_neg (by simp)]
    exact Nat.succ_pos _
  rw [head?_cons, length_cons, length_replicate] at head
  obtain ⟨place, placed⟩ : ∃ place, more + 1 - engine.topLen = place + 1 := by
    refine ⟨more - engine.topLen, ?_⟩
    rw [length_cons, length_replicate] at straddles
    omega
  rw [placed, getElem?_cons_succ, getElem?_replicate] at head
  split at head
  · exact apart (Option.some.inj head)
  · cases head

/-- The lists of a for loop come off the stack in the order of their variables. -/
theorem Sound.popLists (kept : ∀ vals, toList (listOf vals) = some vals) (sound : Sound engine)
    {vals : List Val} {lists : List (List Val)}
    (holds : engine.contents = vals ++ lists.map listOf) :
    ∃ next, engine.popLists toList lists.length = .ok (lists, next) ∧ Sound next ∧
      next.contents = vals := by
  induction lists using reverseRecOn generalizing engine with
  | nil => exact ⟨engine, rfl, sound, by simpa using holds⟩
  | append_singleton lists last ih =>
    rw [map_append, map_singleton, ← append_assoc] at holds
    obtain ⟨middle, popped, soundMiddle, before⟩ := sound.pop holds
    obtain ⟨next, rest, soundNext, contentsNext⟩ := ih soundMiddle before
    refine ⟨next, ?_, soundNext, contentsNext⟩
    rw [length_append, length_singleton, QwEngine.popLists, qwStackPopList, popped]
    simp [kept, rest, bind, Except.bind, pure, Except.pure]

/-- What is made of the values tells whether they came off in their order. -/
theorem Sound.collect_right (kept : ∀ vals, toList (listOf vals) = some vals) (sound : Sound engine)
    {vals popped : List Val} {next : QwEngine Val Rest} (holds : engine.contents = vals ++ popped)
    (collected : engine.collect listOf vals.length = .ok next)
    (right : next.contents = vals ++ [listOf popped]) :
    ∃ middle, engine.qwStackPopN popped.length = .ok (popped, middle) := by
  have count : engine.qwStackLen - vals.length = popped.length := by
    rw [qwStackLen_eq, holds, length_append]
    omega
  obtain ⟨out, middle, result, -, soundMiddle, rfl⟩ := sound.popN_perm holds
  rw [QwEngine.collect, count, result] at collected
  cases collected
  have same := (soundMiddle.put (listOf out)).2.symm.trans right
  have lists : listOf out = listOf popped := by
    simpa using append_cancel_left same
  have equal := (kept out).symm.trans ((congrArg toList lists).trans (kept popped))
  cases Option.some.inj equal
  exact ⟨middle, result⟩

variable (Rest listOf toList)

/-- Values are popped in their order from some depth on, whatever they are. -/
def PopsRight (Val : Type) (depth count : Nat) : Prop :=
  ∀ (engine : QwEngine Val Rest) (vals popped : List Val), Sound engine →
    engine.contents = vals ++ popped → vals.length = depth → popped.length = count →
      ∃ next, engine.qwStackPopN count = .ok (popped, next) ∧ next.contents = vals

/-- A list literal is the list of what its body puts, in that order, whatever the body is. -/
def ListRight (depth count : Nat) : Prop :=
  ∀ (engine after : QwEngine Val Rest) (body : QwEngine Val Rest → Except QwStop (QwEngine Val Rest))
    (vals : List Val), Sound engine → body engine = .ok after → Sound after →
      after.contents = engine.contents ++ vals → engine.contents.length = depth →
        vals.length = count →
          ∃ next, engine.qwInstrList listOf body = .ok next ∧
            next.contents = engine.contents ++ [listOf vals]

/-- A for loop over lists of one length is the list of what its body puts, in that order, whatever the
body is. -/
def ForRight (depth count : Nat) : Prop :=
  ∀ (engine looping after : QwEngine Val Rest)
    (body : List Val → QwEngine Val Rest → Except QwStop (QwEngine Val Rest)) (first : List Val)
    (lists : List (List Val)) (vals : List Val), Sound engine →
      engine.popLists toList (lists.length + 1) = .ok (first :: lists, looping) →
        (∀ list ∈ lists, list.length = first.length) →
          looping.iterate body first.length (first :: lists) = .ok after → Sound after →
            after.contents = looping.contents ++ vals → looping.contents.length = depth →
              vals.length = count →
                ∃ next, engine.qwInstrFor listOf toList (lists.length + 1) body = .ok next ∧
                  next.contents = looping.contents ++ [listOf vals]

variable {Rest listOf toList}

theorem popsRight_iff [Nontrivial Val] (rest : Rest) (depth count : Nat) :
    PopsRight Rest Val depth count ↔ Fits depth count := by
  constructor
  · intro right
    by_contra crosses
    obtain ⟨vals, popped, deep, many, wrong⟩ := @not_fits_apart Val Rest _ depth count crosses
    obtain ⟨sound, holds⟩ := ofList_spec rest (vals ++ popped)
    obtain ⟨next, result, -⟩ := right _ vals popped sound holds deep many
    exact wrong _ next sound holds (many ▸ result)
  · intro fits engine vals popped sound holds deep many
    subst deep many
    obtain ⟨next, result, -, contents⟩ := sound.popN holds ((sound.fits_iff holds).mpr fits)
    exact ⟨next, result, contents⟩

theorem listRight_iff [Nontrivial Val] (kept : ∀ vals, toList (listOf vals) = some vals)
    (rest : Rest) (depth count : Nat) : ListRight Rest listOf depth count ↔ Fits depth count := by
  constructor
  · intro right
    by_contra crosses
    obtain ⟨vals, popped, deep, many, wrong⟩ := @not_fits_apart Val Rest _ depth count crosses
    obtain ⟨sound, holds⟩ := ofList_spec rest vals
    obtain ⟨soundAfter, after⟩ := sound.putAll popped
    obtain ⟨next, result, contents⟩ := right _ _ (fun engine => .ok (popped.foldl qwStackPut engine))
      popped sound rfl soundAfter after (by rw [holds, deep]) many
    rw [qwInstrList, qwStackLen_eq] at result
    rw [holds] at after contents result
    obtain ⟨middle, popped⟩ := soundAfter.collect_right kept after result contents
    exact wrong _ middle soundAfter after popped
  · intro fits engine after body vals sound result soundAfter holds deep many
    subst deep many
    obtain ⟨next, collected, -, contents⟩ := @Sound.collect _ _ _ listOf soundAfter _ _ holds fits
    refine ⟨next, ?_, contents⟩
    rw [qwInstrList, result, qwStackLen_eq]
    exact collected

theorem forRight_iff [Nontrivial Val] (kept : ∀ vals, toList (listOf vals) = some vals)
    (rest : Rest) (depth count : Nat) :
    ForRight Rest listOf toList depth count ↔ Fits depth count := by
  constructor
  · intro right
    by_contra crosses
    obtain ⟨vals, popped, deep, many, wrong⟩ := @not_fits_apart Val Rest _ depth count crosses
    obtain ⟨any, -⟩ := exists_pair_ne Val
    obtain ⟨sound, holds⟩ := ofList_spec rest (vals ++ [listOf [any]])
    obtain ⟨looping, lists, soundLooping, below⟩ : ∃ looping : QwEngine Val Rest,
        (ofList rest (vals ++ [listOf [any]])).popLists toList (([] : List (List Val)).length + 1) =
          .ok ([[any]], looping) ∧ Sound looping ∧ looping.contents = vals :=
      @Sound.popLists _ _ _ listOf toList kept sound vals [[any]] holds
    obtain ⟨soundAfter, after⟩ := soundLooping.putAll popped
    obtain ⟨next, result, contents⟩ := right _ looping _
      (fun _ engine => .ok (popped.foldl qwStackPut engine)) [any] [] popped sound lists nofun rfl
      soundAfter after (by rw [below, deep]) many
    have looped : ((popped.foldl qwStackPut looping).collect listOf vals.length) = .ok next := by
      rw [← below, ← qwStackLen_eq, ← result, qwInstrFor, lists]
      rfl
    rw [below] at after contents
    obtain ⟨middle, popped⟩ := soundAfter.collect_right kept after looped contents
    exact wrong _ middle soundAfter after popped
  · intro fits engine looping after body first lists vals sound popped equal looped soundAfter holds
      deep many
    subst deep many
    obtain ⟨next, collected, -, contents⟩ := @Sound.collect _ _ _ listOf soundAfter _ _ holds fits
    refine ⟨next, ?_, contents⟩
    rw [qwInstrFor, popped]
    simp only [bind, Except.bind, head?_cons, Option.getD_some, looped, qwStackLen_eq]
    refine (if_neg fun some => ?_).trans collected
    obtain ⟨list, mem, differs⟩ := any_eq_true.mp some
    rcases mem_cons.mp mem with rfl | other
    · exact of_decide_eq_true differs rfl
    · exact of_decide_eq_true differs (equal list other)

/-- The stack behaves as one unbounded stack in every run in which many values are only popped where
they lie in one chunk; and for each depth and each number of values, popping them, a list literal and a
for loop are right for all values and all bodies if and only if the values lie in one chunk. -/
theorem lists_iff [Nontrivial Val] (kept : ∀ vals, toList (listOf vals) = some vals) (rest : Rest) :
    (∀ ops : List (StackOp Val), Wholly [] ops →
        replies QwEngine.operate (⟨[], none, rest⟩ : QwEngine Val Rest) ops = replies plain [] ops) ∧
      ∀ depth count,
        (PopsRight Rest Val depth count ↔ Fits depth count) ∧
          (ListRight Rest listOf depth count ↔ Fits depth count) ∧
          (ForRight Rest listOf toList depth count ↔ Fits depth count) := by
  refine ⟨fun ops wholly => ?_, fun depth count =>
    ⟨popsRight_iff rest depth count, listRight_iff kept rest depth count, forRight_iff kept rest depth count⟩⟩
  exact @Sound.replies _ _ ⟨[], none, rest⟩ ⟨nofun, nofun, nofun⟩ ops wholly

end

/-! ### A list that crosses the end of a chunk -/

/-- The values that are strings and lists. -/
inductive Listed where
  | string (text : String)
  | list (vals : List Listed)

/-- `QW_VAL_LIST` -/
def Listed.toList : Listed → Option (List Listed)
  | .string _ => none
  | .list vals => some vals

instance : Nontrivial Listed := ⟨.string "a", .list [], nofun⟩

theorem lists_iff_listed :
    (∀ ops : List (StackOp Listed), Wholly [] ops →
        replies QwEngine.operate (⟨[], none, ()⟩ : QwEngine Listed Unit) ops = replies plain [] ops) ∧
      ∀ depth count,
        (PopsRight Unit Listed depth count ↔ Fits depth count) ∧
          (ListRight Unit Listed.list depth count ↔ Fits depth count) ∧
          (ForRight Unit Listed.list Listed.toList depth count ↔ Fits depth count) :=
  lists_iff (fun _ => rfl) ()

/-- The second of two values goes to a new chunk, and comes off first. -/
theorem crossing {vals : List Listed} (size : vals.length = 999) :
    qwInstrList Listed.list
        (fun engine => .ok ((engine.qwStackPut (.string "a")).qwStackPut (.string "b")))
        (⟨[vals], none, ()⟩ : QwEngine Listed Unit) =
      .ok ⟨[vals ++ [.list [.string "b", .string "a"]]], some [], ()⟩ := by
  have first : (⟨[vals], none, ()⟩ : QwEngine Listed Unit).qwStackPut (.string "a") =
      ⟨[vals ++ [.string "a"]], none, ()⟩ := by
    simp [qwStackPut, qwStackCap, size]
  have second : (⟨[vals ++ [.string "a"]], none, ()⟩ : QwEngine Listed Unit).qwStackPut (.string "b") =
      ⟨[[.string "b"], vals ++ [.string "a"]], none, ()⟩ := by
    simp [qwStackPut, putNew, qwEngineNewStack, qwStackCap, size]
  have popped : (⟨[[.string "b"], vals ++ [.string "a"]], none, ()⟩ : QwEngine Listed Unit).qwStackPopN 2 =
      .ok ([.string "b", .string "a"], ⟨[vals], some [], ()⟩) := by
    simp [qwStackPopN, popChunks, qwEnginePopStack, size, bind, Except.bind, pure, Except.pure]
  have count : (⟨[[.string "b"], vals ++ [.string "a"]], none, ()⟩ : QwEngine Listed Unit).qwStackLen -
      (⟨[vals], none, ()⟩ : QwEngine Listed Unit).qwStackLen = 2 := by
    simp [qwStackLen, size]
  rw [qwInstrList, first, second]
  simp only [bind, Except.bind, QwEngine.collect, count, popped, pure, Except.pure]
  simp [qwStackPut, qwStackCap, size]

/-- Where 999 values are on the stack, `["a" "b"]` is the list of `"b"` and `"a"`. -/
theorem list_crosses :
    ∃ next, qwInstrList Listed.list
        (fun engine => .ok ((engine.qwStackPut (.string "a")).qwStackPut (.string "b")))
        (⟨[replicate 999 (.string "")], none, ()⟩ : QwEngine Listed Unit) = .ok next ∧
      next.contents.getLast? = some (.list [.string "b", .string "a"]) :=
  ⟨_, crossing length_replicate, by rw [contents_cons rfl, ← append_assoc, getLast?_concat]⟩

end QwEngine

end Splintermail
