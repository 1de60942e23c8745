/-
This file models the value stack of the qwwq engine, and the two instructions that take many
values off it.

The stack is a list of chunks of a fixed size, of which the newest is the top, and a spare
chunk is kept when one becomes empty. All chunks below the top are full, so that where the
chunks end depends on the depth of the stack alone. Values that are popped together are
copied chunk by chunk from the top, each chunk after the one before: where they lie in more
than one chunk, the chunks come out in the wrong order.
-/

import Mathlib.Algebra.GroupWithZero.Nat
import Mathlib.Data.List.Basic
import Mathlib.Data.List.Flatten
import Splintermail.Lib.Run

namespace Splintermail

open List

/-- The `cap` of `qw_engine_new_stack`. -/
def qwStackCap : Nat := 1000

/-- How a program stops. -/
inductive QwStop where
  | stackUnderflow
  | notAList
  | unequalLists
  /-- What the source leaves undefined. -/
  | undefined
  deriving DecidableEq, Repr

/-- `qw_engine_t`: the chunks, the newest first, each with its values in the order in which they were
put; the chunk that is kept; and the rest of the engine. -/
structure QwEngine (Val Rest : Type) where
  stack : List (List Val)
  extrastack : Option (List Val)
  rest : Rest
  deriving DecidableEq, Repr

namespace QwEngine

variable {Val Rest : Type}

/-! ### The stack -/

/-- `qw_stack_len` -/
def qwStackLen (engine : QwEngine Val Rest) : Nat := (engine.stack.map length).sum

/-- `qw_engine_pop_stack`, of a top chunk with what is below it. -/
def qwEnginePopStack (engine : QwEngine Val Rest) (top : List Val) (below : List (List Val)) :
    QwEngine Val Rest :=
  match engine.extrastack with
  -- hold on to this stack
  | none => { engine with stack := below, extrastack := some top }
  | some _ => { engine with stack := below }

/-- `qw_engine_new_stack` -/
def qwEngineNewStack (engine : QwEngine Val Rest) : List Val × QwEngine Val Rest :=
  match engine.extrastack with
  | some out => (out, { engine with extrastack := none })
  | none => ([], engine)

/-- A value in a new chunk. -/
def putNew (engine : QwEngine Val Rest) (val : Val) : QwEngine Val Rest :=
  let (new, engine) := engine.qwEngineNewStack
  { engine with stack := (new ++ [val]) :: engine.stack }

/-- `qw_stack_put` -/
def qwStackPut (engine : QwEngine Val Rest) (val : Val) : QwEngine Val Rest :=
  match engine.stack with
  | [] => engine.putNew val
  | top :: below =>
    if top.length = qwStackCap then engine.putNew val
    else { engine with stack := (top ++ [val]) :: below }

/-- `qw_stack_pop` -/
def qwStackPop (engine : QwEngine Val Rest) : Except QwStop (Val × QwEngine Val Rest) :=
  match engine.stack with
  | [] => .error .stackUnderflow
  | top :: below =>
    match top.getLast? with
    | none => .error .undefined
    | some out =>
      let top := top.dropLast
      if top.length = 0 then .ok (out, engine.qwEnginePopStack top below)
      else .ok (out, { engine with stack := top :: below })

/-- `qw_stack_peek` -/
def qwStackPeek (engine : QwEngine Val Rest) : Except QwStop Val :=
  match engine.stack with
  | [] => .error .stackUnderflow
  | top :: _ =>
    match top.getLast? with
    | none => .error .undefined
    | some out => .ok out

/-- The loop of `qw_stack_pop_n` through the chunks, with the number of values that are left to copy.
What is copied first comes first. -/
def popChunks (engine : QwEngine Val Rest) (len : Nat) :
    List (List Val) → Except QwStop (List Val × QwEngine Val Rest)
  | [] => if len = 0 then .ok ([], { engine with stack := [] }) else .error .stackUnderflow
  | top :: below =>
    if len = 0 then .ok ([], { engine with stack := top :: below })
    else
      let n := min len top.length
      let kept := top.take (top.length - n)
      let copied := top.drop (top.length - n)
      if kept.length = 0 then do
        let (vals, engine) ← (engine.qwEnginePopStack kept below).popChunks (len - n) below
        return (copied ++ vals, engine)
      else .ok (copied, { engine with stack := kept :: below })

/-- `qw_stack_pop_n` -/
def qwStackPopN (engine : QwEngine Val Rest) (len : Nat) :
    Except QwStop (List Val × QwEngine Val Rest) :=
  engine.popChunks len engine.stack

/-! ### Instructions -/

/-- The end of `qw_instr_list` and `qw_instr_for`: what was put since then becomes a list. -/
def collect (listOf : List Val → Val) (start : Nat) (engine : QwEngine Val Rest) :
    Except QwStop (QwEngine Val Rest) := do
  let (vals, engine) ← engine.qwStackPopN (engine.qwStackLen - start)
  return engine.qwStackPut (listOf vals)

/-- `qw_instr_list`, with what executing the list body does. -/
def qwInstrList (listOf : List Val → Val)
    (body : QwEngine Val Rest → Except QwStop (QwEngine Val Rest)) (engine : QwEngine Val Rest) :
    Except QwStop (QwEngine Val Rest) := do
  let start := engine.qwStackLen
  let engine ← body engine
  engine.collect listOf start

/-- `qw_stack_pop_list` -/
def qwStackPopList (toList : Val → Option (List Val)) (engine : QwEngine Val Rest) :
    Except QwStop (List Val × QwEngine Val Rest) := do
  let (val, engine) ← engine.qwStackPop
  match toList val with
  | none => .error .notAList
  | some vals => return (vals, engine)

/-- The lists of a for loop, one for each variable, in the order of the variables. -/
def popLists (toList : Val → Option (List Val)) :
    Nat → QwEngine Val Rest → Except QwStop (List (List Val) × QwEngine Val Rest)
  | 0, engine => .ok ([], engine)
  | nvars + 1, engine => do
    let (last, engine) ← engine.qwStackPopList toList
    let (lists, engine) ← popLists toList nvars engine
    return (lists ++ [last], engine)

/-- The loop of `qw_instr_for`, with what executing the loop body does in the scope of some values. -/
def iterate (body : List Val → QwEngine Val Rest → Except QwStop (QwEngine Val Rest)) :
    Nat → List (List Val) → QwEngine Val Rest → Except QwStop (QwEngine Val Rest)
  | 0, _, engine => .ok engine
  | niters + 1, lists, engine => do
    let engine ← body (lists.filterMap head?) engine
    iterate body niters (lists.map tail) engine

/-- `qw_instr_for` -/
def qwInstrFor (listOf : List Val → Val) (toList : Val → Option (List Val)) (nvars : Nat)
    (body : List Val → QwEngine Val Rest → Except QwStop (QwEngine Val Rest))
    (engine : QwEngine Val Rest) : Except QwStop (QwEngine Val Rest) := do
  let (lists, engine) ← engine.popLists toList nvars
  -- check lengths are equal
  let niters := (lists.head?.getD []).length
  if lists.any fun list => list.length ≠ niters then .error .unequalLists
  else
    let start := engine.qwStackLen
    let engine ← engine.iterate body niters lists
    engine.collect listOf start

/-! ### What the stack is -/

/-- The values on the stack, the first that was put first. -/
def contents (engine : QwEngine Val Rest) : List Val := engine.stack.reverse.flatten

/-- The chunks below the top are full, the top is not empty, and the chunk that is kept is. -/
structure Sound (engine : QwEngine Val Rest) : Prop where
  top : ∀ top ∈ engine.stack.head?, 0 < top.length ∧ top.length ≤ qwStackCap
  below : ∀ chunk ∈ engine.stack.tail, chunk.length = qwStackCap
  extra : ∀ chunk ∈ engine.extrastack, chunk = []

theorem qwStackLen_eq (engine : QwEngine Val Rest) :
    engine.qwStackLen = engine.contents.length := by
  rw [qwStackLen, contents, length_flatten, map_reverse, sum_reverse]

theorem contents_cons {engine : QwEngine Val Rest} {top : List Val} {below : List (List Val)}
    (chunks : engine.stack = top :: below) : engine.contents = below.reverse.flatten ++ top := by
  simp [contents, chunks]

theorem length_full {below : List (List Val)} (full : ∀ chunk ∈ below, chunk.length = qwStackCap) :
    below.reverse.flatten.length = qwStackCap * below.length := by
  rw [length_flatten, map_reverse, sum_reverse, map_congr_left full]
  simp [Nat.mul_comm]

variable {engine : QwEngine Val Rest}

section

variable (sound : Sound engine)

include sound

theorem Sound.newStack : engine.qwEngineNewStack = ([], { engine with extrastack := none }) := by
  rw [qwEngineNewStack]
  split
  · next out kept => rw [sound.extra out kept]
  · next none =>
    rw [← none]

theorem Sound.putNew (full : ∀ chunk ∈ engine.stack, chunk.length = qwStackCap) (val : Val) :
    Sound (engine.putNew val) ∧ (engine.putNew val).contents = engine.contents ++ [val] := by
  rw [QwEngine.putNew, sound.newStack]
  refine ⟨⟨?_, full, nofun⟩, ?_⟩
  · intro top same
    cases same
    rw [nil_append, length_singleton]
    exact ⟨Nat.one_pos, by decide⟩
  · simp [contents]

theorem Sound.put (val : Val) :
    Sound (engine.qwStackPut val) ∧
      (engine.qwStackPut val).contents = engine.contents ++ [val] := by
  rw [qwStackPut]
  split
  · next empty => exact sound.putNew (by simp [empty]) val
  · next top below chunks =>
    have sizes := sound.top top (by simp [chunks])
    have full : ∀ chunk ∈ below, chunk.length = qwStackCap := fun chunk mem =>
      sound.below chunk (by simpa [chunks] using mem)
    split_ifs with ends
    · refine sound.putNew (fun chunk mem => ?_) val
      rw [chunks] at mem
      rcases mem_cons.mp mem with rfl | later
      · exact ends
      · exact full chunk later
    · refine ⟨⟨?_, full, sound.extra⟩, ?_⟩
      · intro grown same
        cases same
        rw [length_append, length_singleton]
        exact ⟨Nat.succ_pos _, Nat.lt_of_le_of_ne sizes.2 ends⟩
      · simp [contents, chunks]

/-- A chunk that became empty goes. -/
theorem Sound.popStack {below : List (List Val)}
    (full : ∀ chunk ∈ below, chunk.length = qwStackCap) :
    Sound (engine.qwEnginePopStack [] below) ∧
      (engine.qwEnginePopStack [] below).stack = below := by
  have tops (top : List Val) (mem : top ∈ below.head?) :
      0 < top.length ∧ top.length ≤ qwStackCap := by
    rw [full top (mem_of_mem_head? mem)]
    exact ⟨by decide, Nat.le_refl _⟩
  have tails (chunk : List Val) (mem : chunk ∈ below.tail) : chunk.length = qwStackCap :=
    full chunk (mem_of_mem_tail mem)
  rw [qwEnginePopStack]
  split
  · exact ⟨⟨tops, tails, fun chunk same => (Option.some.inj same).symm⟩, rfl⟩
  · exact ⟨⟨tops, tails, sound.extra⟩, rfl⟩

end

variable {vals popped : List Val}

theorem split_suffix {front top : List Val} (same : front ++ top = vals ++ popped)
    (within : popped.length ≤ top.length) :
    ∃ first, top = first ++ popped ∧ vals = front ++ first := by
  rcases append_eq_append_iff.mp same with ⟨first, whole, last⟩ | ⟨more, whole, last⟩
  · exact ⟨first, last, whole⟩
  · have none : more = [] := length_eq_zero_iff.mp (by
      rw [last, length_append] at within
      omega)
    subst none
    exact ⟨[], last.symm, by simpa using whole.symm⟩

theorem Sound.pop (sound : Sound engine) {val : Val} (holds : engine.contents = vals ++ [val]) :
    ∃ next, engine.qwStackPop = .ok (val, next) ∧ Sound next ∧ next.contents = vals := by
  match chunks : engine.stack with
  | [] => simp [contents, chunks] at holds
  | top :: below =>
    have full : ∀ chunk ∈ below, chunk.length = qwStackCap := fun chunk mem =>
      sound.below chunk (by simpa [chunks] using mem)
    have sizes := sound.top top (by simp [chunks])
    obtain ⟨first, rfl, before⟩ := split_suffix ((contents_cons chunks).symm.trans holds) sizes.1
    simp only [qwStackPop, chunks, getLast?_append, getLast?_singleton, Option.some_or,
      dropLast_concat]
    by_cases empty : first = []
    · subst empty
      obtain ⟨kept, gone⟩ := sound.popStack full
      refine ⟨_, by simp, kept, ?_⟩
      rw [contents, gone, before, append_nil]
    · have positive : 0 < first.length := length_pos_iff.mpr empty
      refine ⟨{ engine with stack := first :: below }, by simp [empty], ⟨?_, full, sound.extra⟩, ?_⟩
      · intro top same
        cases same
        rw [length_append, length_singleton] at sizes
        exact ⟨positive, Nat.le_of_succ_le sizes.2⟩
      · rw [before]
        simp [contents]

theorem Sound.peek (sound : Sound engine) {val : Val} (holds : engine.contents = vals ++ [val]) :
    engine.qwStackPeek = .ok val := by
  match chunks : engine.stack with
  | [] => simp [contents, chunks] at holds
  | top :: below =>
    have sizes := sound.top top (by simp [chunks])
    obtain ⟨first, rfl, -⟩ := split_suffix ((contents_cons chunks).symm.trans holds) sizes.1
    simp [qwStackPeek, chunks]

/-! ### Many values -/

/-- How many values the top chunk has. -/
def topLen (engine : QwEngine Val Rest) : Nat := (engine.stack.head?.getD []).length

theorem Sound.topLen_eq (sound : Sound engine) :
    engine.topLen = if engine.contents.length = 0 then 0
      else (engine.contents.length - 1) % qwStackCap + 1 := by
  match chunks : engine.stack with
  | [] => simp [topLen, contents, chunks]
  | top :: below =>
    have full : ∀ chunk ∈ below, chunk.length = qwStackCap := fun chunk mem =>
      sound.below chunk (by simpa [chunks] using mem)
    have sizes := sound.top top (by simp [chunks])
    have depth : engine.contents.length = qwStackCap * below.length + top.length := by
      rw [contents_cons chunks, length_append, length_full full]
    rw [depth, topLen, chunks, if_neg (by omega)]
    have before : qwStackCap * below.length + top.length - 1 =
        qwStackCap * below.length + (top.length - 1) := by omega
    rw [before, Nat.mul_add_mod, Nat.mod_eq_of_lt (by omega)]
    show top.length = _
    omega

theorem popChunks_zero {chunks : List (List Val)} (same : engine.stack = chunks) :
    engine.popChunks 0 chunks = .ok ([], engine) := by
  have done : engine.popChunks 0 chunks = .ok ([], { engine with stack := chunks }) := by
    cases chunks with
    | nil => rfl
    | cons top below => rfl
  rw [done, ← same]

section

variable (sound : Sound engine)

include sound

/-- Values that lie in the top chunk are popped in their order. -/
theorem Sound.popN (holds : engine.contents = vals ++ popped)
    (inside : popped.length ≤ engine.topLen) :
    ∃ next, engine.qwStackPopN popped.length = .ok (popped, next) ∧ Sound next ∧
      next.contents = vals := by
  match chunks : engine.stack with
  | [] =>
    have empty : vals ++ popped = [] := by rw [← holds, contents, chunks]; rfl
    obtain ⟨rfl, rfl⟩ := append_eq_nil_iff.mp empty
    refine ⟨{ engine with stack := [] }, by simp [qwStackPopN, chunks, popChunks], ?_, rfl⟩
    exact ⟨nofun, nofun, sound.extra⟩
  | top :: below =>
    have full : ∀ chunk ∈ below, chunk.length = qwStackCap := fun chunk mem =>
      sound.below chunk (by simpa [chunks] using mem)
    have sizes := sound.top top (by simp [chunks])
    have within : popped.length ≤ top.length := by simpa [topLen, chunks] using inside
    have before : below.reverse.flatten ++ top = vals ++ popped := (contents_cons chunks).symm.trans holds
    obtain ⟨first, rfl, same⟩ := split_suffix ((contents_cons chunks).symm.trans holds) within
    have copies : min popped.length (first ++ popped).length = popped.length := by simp
    have kept : (first ++ popped).length - popped.length = first.length := by simp
    rw [qwStackPopN, chunks, popChunks]
    simp only [copies, kept, take_left, drop_left, Nat.sub_self]
    by_cases none : popped.length = 0
    · have nothing := length_eq_zero_iff.mp none
      subst nothing
      refine ⟨{ engine with stack := (first ++ []) :: below }, rfl, ⟨?_, full, sound.extra⟩, ?_⟩
      · intro top same
        cases same
        exact sizes
      · simp [contents, same]
    · rw [if_neg none]
      by_cases empty : first = []
      · subst empty
        obtain ⟨kept, gone⟩ := sound.popStack full
        rw [append_nil] at same
        refine ⟨engine.qwEnginePopStack [] below, ?_, kept, by rw [contents, gone, same]⟩
        simp only [length_nil, if_true, popChunks_zero gone, bind, Except.bind, pure,
          Except.pure, append_nil]
      · have positive : 0 < first.length := length_pos_iff.mpr empty
        rw [if_neg (Nat.ne_of_gt positive)]
        refine ⟨{ engine with stack := first :: below }, rfl, ⟨?_, full, sound.extra⟩, ?_⟩
        · intro top same
          cases same
          rw [length_append] at sizes
          exact ⟨positive, Nat.le_trans (Nat.le_add_right _ _) sizes.2⟩
        · simp [contents, same]

/-- However they lie, the values that are popped are those at the end. -/
theorem Sound.popN_perm (holds : engine.contents = vals ++ popped) :
    ∃ out next, engine.qwStackPopN popped.length = .ok (out, next) ∧ out.Perm popped ∧ Sound next ∧
      next.contents = vals := by
  rw [qwStackPopN]
  generalize chunked : engine.stack = chunks
  induction chunks generalizing engine popped with
  | nil =>
    have empty : vals ++ popped = [] := by rw [← holds, contents, chunked]; rfl
    obtain ⟨rfl, rfl⟩ := append_eq_nil_iff.mp empty
    exact ⟨[], engine, popChunks_zero chunked, .refl _, sound, holds⟩
  | cons top below ih =>
    have full : ∀ chunk ∈ below, chunk.length = qwStackCap := fun chunk mem =>
      sound.below chunk (by simpa [chunked] using mem)
    rcases Nat.lt_or_ge top.length popped.length with straddles | within
    · obtain ⟨rest, rfl, before⟩ := split_suffix
        (holds.symm.trans (contents_cons chunked)) (Nat.le_of_lt straddles)
      have copies : min (rest ++ top).length top.length = top.length := by simp
      have left : (rest ++ top).length - top.length = rest.length := by simp
      have positive : ¬ (rest ++ top).length = 0 := by omega
      obtain ⟨kept, gone⟩ := sound.popStack full
      have lower : (engine.qwEnginePopStack [] below).contents = vals ++ rest := by
        rw [contents, gone, before]
      obtain ⟨out, next, popped, perm, soundNext, contentsNext⟩ :=
        ih kept lower gone
      refine ⟨top ++ out, next, ?_, ?_, soundNext, contentsNext⟩
      · rw [popChunks]
        simp only [positive, if_false, copies, left, Nat.sub_self, take_zero, drop_zero,
          length_nil, if_true, popped, bind, Except.bind, pure, Except.pure]
      · exact (perm.append_left top).trans perm_append_comm
    · have inside : popped.length ≤ engine.topLen := by simpa [topLen, chunked] using within
      obtain ⟨next, popped, soundNext, contentsNext⟩ := sound.popN holds inside
      rw [qwStackPopN, chunked] at popped
      exact ⟨_, next, popped, .refl _, soundNext, contentsNext⟩

theorem Sound.popN_underflow {len : Nat} (more : engine.contents.length < len) :
    engine.qwStackPopN len = .error .stackUnderflow := by
  rw [qwStackPopN]
  generalize chunked : engine.stack = chunks
  induction chunks generalizing engine len with
  | nil => rw [popChunks, if_neg (Nat.ne_of_gt (Nat.zero_lt_of_lt more))]
  | cons top below ih =>
    have full : ∀ chunk ∈ below, chunk.length = qwStackCap := fun chunk mem =>
      sound.below chunk (by simpa [chunked] using mem)
    rw [contents_cons chunked, length_append] at more
    obtain ⟨kept, gone⟩ := sound.popStack full
    have copies : min len top.length = top.length := by omega
    have positive : ¬ len = 0 := by omega
    have lower : (engine.qwEnginePopStack [] below).contents.length < len - top.length := by
      rw [contents, gone]
      omega
    rw [popChunks]
    simp only [positive, if_false, copies, Nat.sub_self, take_zero, length_nil, if_true,
      ih kept lower gone, bind, Except.bind]

/-- Where the values lie in more than one chunk, the first of the top chunk comes first. -/
theorem Sound.popN_head {out : List Val} {next : QwEngine Val Rest}
    (holds : engine.contents = vals ++ popped) (straddles : engine.topLen < popped.length)
    (result : engine.qwStackPopN popped.length = .ok (out, next)) :
    out.head? = popped[popped.length - engine.topLen]? := by
  match chunked : engine.stack with
  | [] =>
    have empty : vals ++ popped = [] := by rw [← holds, contents, chunked]; rfl
    rw [(append_eq_nil_iff.mp empty).2] at straddles
    exact absurd straddles (Nat.not_lt_zero _)
  | top :: below =>
    have sizes := sound.top top (by simp [chunked])
    have length : engine.topLen = top.length := by simp [topLen, chunked]
    rw [length] at straddles ⊢
    obtain ⟨rest, rfl, -⟩ := split_suffix
      (holds.symm.trans (contents_cons chunked)) (Nat.le_of_lt straddles)
    have copies : min (rest ++ top).length top.length = top.length := by simp
    have left : (rest ++ top).length - top.length = rest.length := by simp
    have positive : ¬ (rest ++ top).length = 0 := by omega
    rw [qwStackPopN, chunked, popChunks] at result
    simp only [positive, if_false, copies, left, Nat.sub_self, take_zero, drop_zero,
      length_nil, if_true, bind, Except.bind] at result
    split at result
    · cases result
    · cases result
      rw [left, getElem?_append_right (Nat.le_refl _), Nat.sub_self, ← head?_eq_getElem?]
      exact head?_append_of_ne_nil _ (length_pos_iff.mp sizes.1)

end

end QwEngine

end Splintermail
