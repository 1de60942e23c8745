/-
This file models how qwwq splits a template into text and snippets: `find_guard`, what
`qw_scanner_next` does between the snippets, and the loop of `qw_file`.

A guard is searched in one pass that never looks back, so it is found where the search
begins anew. A template is split at the first occurrences of its guards exactly as long as
all of these are such places, and every guard of a single repeated byte is found always.
-/

import Splintermail.Dstr.Bytes
import Splintermail.Lib.Search

namespace Splintermail

open List Search

/-! ### Scanning -/

/-- The loop of `find_guard`. -/
def findGuardLoop (guard : Bytes) : Nat → Nat → Bytes → Option Nat
  | _, _, [] => none
  | i, matched, byte :: rest =>
    if some byte ≠ guard[matched]? then findGuardLoop guard (i + 1) 0 rest
    else if matched + 1 < guard.length then findGuardLoop guard (i + 1) (matched + 1) rest
    -- guard is matched
    else some (i + 1 - guard.length)

/-- `find_guard`: the position of the next guard, if one is found. -/
def findGuard (buf : Bytes) (start : Nat) (guard : Bytes) : Option Nat :=
  findGuardLoop guard start 0 (buf.drop start)

/-- The bytes from a position up to another. -/
def dstrSlice (buf : Bytes) (start finish : Nat) : Bytes := (buf.drop start).take (finish - start)

/-- The guards of a template, neither of which is empty. -/
structure QwGuards where
  preguard : Bytes
  postguard : Bytes
  preguard_ne : preguard ≠ []
  postguard_ne : postguard ≠ []

/-- `qw_scanner_t` over a fixed buffer. -/
structure QwScanner where
  used : Nat := 0
  active : Bool := false
  qwEnd : Nat := 0

/-- The tokens outside of snippets. -/
inductive QwToken where
  | raw (text : Bytes)
  | eof

/-- `qw_scanner_next` of an inactive scanner; nothing if the preguard has no postguard. -/
def qwScannerNext (buf : Bytes) (guards : QwGuards) (s : QwScanner) : Option (QwToken × QwScanner) :=
  if buf.length ≤ s.used then some (.eof, s)
  else
    match findGuard buf s.used guards.preguard with
    -- no preguard found
    | none => some (.raw (buf.drop s.used), { s with used := buf.length, active := false })
    -- preguard found, find matching postguard
    | some pre =>
      match findGuard buf (pre + guards.preguard.length) guards.postguard with
      | none => none
      | some post =>
        some (.raw (dstrSlice buf s.used pre),
          { used := pre + guards.preguard.length, active := true, qwEnd := post })

/-- The text that the tokens of an active scanner are taken from. -/
def qwSnippet (buf : Bytes) (s : QwScanner) : Bytes := dstrSlice buf s.used s.qwEnd

/-- The scanner after the last token of a snippet. -/
def QwScanner.eoq (guards : QwGuards) (s : QwScanner) : QwScanner :=
  { s with active := false, used := s.qwEnd + guards.postguard.length }

/-- How a template ends. -/
inductive QwFileEnd (State Err : Type) where
  | done (state : State)
  | unmatchedPreguard
  | failed (err : Err)
  deriving DecidableEq, Repr

variable {guard text : Bytes}

theorem findGuardLoop_le {i matched : Nat} {position : Nat}
    (found : findGuardLoop guard i matched text = some position) :
    i + 1 ≤ position + guard.length := by
  induction text generalizing i matched with
  | nil => exact absurd found nofun
  | cons byte rest ih =>
    rw [findGuardLoop] at found
    split_ifs at found
    · exact (Nat.le_succ _).trans (ih found)
    · exact (Nat.le_succ _).trans (ih found)
    · cases found
      omega

/-- The scanner gets behind where it was, and so does the end of a snippet. -/
theorem qwScannerNext_moves {buf : Bytes} {guards : QwGuards} {s next : QwScanner}
    (scanned : qwScannerNext buf guards s = some (.raw text, next)) :
    s.used < buf.length ∧ s.used < next.used ∧
      (next.active = true → s.used < (next.eoq guards).used) := by
  unfold qwScannerNext at scanned
  split_ifs at scanned with ended
  · exact absurd scanned nofun
  · have inside := Nat.lt_of_not_le ended
    split at scanned
    · obtain rfl := (Prod.mk.inj (Option.some.inj scanned)).2
      exact ⟨inside, inside, nofun⟩
    · rename_i pre found
      split at scanned
      · exact absurd scanned nofun
      · rename_i post found'
        obtain rfl := (Prod.mk.inj (Option.some.inj scanned)).2
        have first : s.used < pre + guards.preguard.length := findGuardLoop_le found
        have second : pre + guards.preguard.length < post + guards.postguard.length :=
          findGuardLoop_le found'
        exact ⟨inside, first, fun _ => first.trans second⟩

section
variable {State Err : Type} (eval : Bytes → State → Except Err (Bytes × State)) (buf : Bytes)
  (guards : QwGuards)

/-- The loop of `qw_file`: what is given to `chunk_fn`, and how the template ends. -/
def qwFileLoop (s : QwScanner) (state : State) : List Bytes × QwFileEnd State Err :=
  match _scanned : qwScannerNext buf guards s with
  | none => ([], .unmatchedPreguard)
  | some (.eof, _) => ([], .done state)
  | some (.raw text, next) =>
    if _active : next.active then
      match eval (qwSnippet buf next) state with
      | .error err => ([text], .failed err)
      | .ok (value, state) =>
        let (chunks, last) := qwFileLoop (next.eoq guards) state
        (text :: value :: chunks, last)
    else
      let (chunks, last) := qwFileLoop next state
      (text :: chunks, last)
termination_by buf.length - s.used
decreasing_by
  · obtain ⟨inside, -, behind⟩ := qwScannerNext_moves _scanned
    exact Nat.sub_lt_sub_left inside (behind _active)
  · obtain ⟨inside, behind, -⟩ := qwScannerNext_moves _scanned
    exact Nat.sub_lt_sub_left inside behind

/-- `qw_file`: `eval` gives the value of a snippet and takes the engine to its next state. -/
def qwFile (state : State) : List Bytes × QwFileEnd State Err := qwFileLoop eval buf guards {} state

end

/-! ### What a search finds -/

/-- The search begins anew at a position, and the guard is there. -/
def GuardAt (guard text : Bytes) (position : Nat) : Prop :=
  Fresh guard text position ∧ guard <+: text.drop position

/-- With a part of the guard matched, the rest is matched or the search begins anew. -/
theorem findGuardLoop_matched {matched : Nat} (below : matched < guard.length) (i : Nat)
    (text : Bytes) :
    findGuardLoop guard (i + matched) matched text = if guard.drop matched <+: text then some i
      else
        findGuardLoop guard (i + matched + agreed (guard.drop matched) text + 1) 0
          (text.drop (agreed (guard.drop matched) text + 1)) := by
  have split := drop_eq_getElem_cons below
  induction text generalizing matched with
  | nil =>
    rw [split, if_neg fun found => absurd (prefix_nil.mp found) (cons_ne_nil _ _), drop_nil]
    rfl
  | cons byte rest ih =>
    rw [split, agreed, findGuardLoop, getElem?_eq_getElem below]
    simp only [cons_prefix_cons]
    by_cases same : byte = guard[matched]
    · rw [if_neg (not_not.mpr (congrArg some same)), if_pos same]
      by_cases more : matched + 1 < guard.length
      · rw [if_pos more, Nat.add_assoc, ih more (drop_eq_getElem_cons more)]
        simp only [same, true_and, drop_succ_cons]
        rw [show i + (matched + 1) + agreed (guard.drop (matched + 1)) rest + 1 =
          i + matched + (agreed (guard.drop (matched + 1)) rest + 1) + 1 by omega]
      · have last : guard.drop (matched + 1) = [] := drop_eq_nil_of_le (Nat.not_lt.mp more)
        rw [if_neg more, last, if_pos ⟨same.symm, nil_prefix⟩]
        congr 1
        omega
    · rw [if_pos fun equal => same (Option.some.inj equal), if_neg same,
        if_neg fun found => same found.1.symm]
      rfl

/-- What the search finds: the guard, where it begins anew. -/
theorem findGuardLoop_iff (present : guard ≠ []) {i position : Nat} :
    findGuardLoop guard i 0 text = some position ↔
      ∃ place, position = i + place ∧ GuardAt guard text place := by
  induction length : text.length using Nat.strongRecOn generalizing i text with
  | ind size ih =>
    have loop := findGuardLoop_matched (length_pos_iff.mpr present) i text
    rw [Nat.add_zero, drop_zero] at loop
    rw [loop]
    split_ifs with found
    · constructor
      · intro same
        exact ⟨0, (Option.some.inj same).symm, .start text, found⟩
      · rintro ⟨place, rfl, fresh, occurs⟩
        obtain rfl : 0 = place := (Fresh.start text).unique fresh found occurs
        rfl
    · obtain rfl | some := eq_or_ne text []
      · constructor
        · intro same
          cases same
        · rintro ⟨place, -, -, occurs⟩
          rw [drop_nil] at occurs
          exact absurd (prefix_nil.mp occurs) present
      · have shorter : (text.drop (agreed guard text + 1)).length < size := by
          have positive := length_pos_iff.mpr some
          rw [← length, length_drop]
          omega
        rw [ih _ shorter rfl]
        constructor
        · rintro ⟨place, rfl, fresh, occurs⟩
          rw [drop_drop] at occurs
          exact ⟨agreed guard text + 1 + place, by omega, .later found fresh, occurs⟩
        · rintro ⟨place, rfl, fresh, occurs⟩
          cases fresh with
          | start => exact absurd occurs found
          | @later _ place _ fresh =>
            rw [← drop_drop] at occurs
            exact ⟨place, by omega, fresh, occurs⟩

theorem findGuard_iff (present : guard ≠ []) {buf : Bytes} {start position : Nat} :
    findGuard buf start guard = some position ↔
      ∃ place, position = start + place ∧ GuardAt guard (buf.drop start) place :=
  findGuardLoop_iff present

theorem GuardAt.split {place : Nat} (present : guard ≠ []) (found : GuardAt guard text place) :
    ∃ before after, text = before ++ (guard ++ after) ∧ place = before.length := by
  obtain ⟨after, occurs⟩ := found.2
  have inside : place ≤ text.length := by
    by_contra beyond
    rw [drop_eq_nil_of_le (Nat.le_of_not_le beyond)] at occurs
    exact present (append_eq_nil_iff.mp occurs).1
  refine ⟨text.take place, after, ?_, (length_take_of_le inside).symm⟩
  rw [occurs, take_append_drop]

/-! ### The loop, one region at a time -/

section
variable {State Err : Type} {eval : Bytes → State → Except Err (Bytes × State)} {buf : Bytes}
  {guards : QwGuards} {s : QwScanner}

theorem findGuard_none {guard : Bytes} (present : guard ≠ []) {start : Nat}
    (absent : ∀ place, ¬ GuardAt guard (buf.drop start) place) : findGuard buf start guard = none := by
  cases result : findGuard buf start guard with
  | none => rfl
  | some position =>
    obtain ⟨place, -, found⟩ := (findGuard_iff present).mp result
    exact absurd found (absent place)

theorem qwFileLoop_empty (ended : buf.drop s.used = []) (state : State) :
    qwFileLoop eval buf guards s state = ([], .done state) := by
  have scanned : qwScannerNext buf guards s = some (.eof, s) :=
    if_pos (drop_eq_nil_iff.mp ended)
  rw [qwFileLoop, scanned]

theorem qwFileLoop_rest (more : buf.drop s.used ≠ [])
    (absent : ∀ place, ¬ GuardAt guards.preguard (buf.drop s.used) place) (state : State) :
    qwFileLoop eval buf guards s state = ([buf.drop s.used], .done state) := by
  have inside : ¬ buf.length ≤ s.used := fun ended => more (drop_eq_nil_iff.mpr ended)
  have scanned : qwScannerNext buf guards s =
      some (.raw (buf.drop s.used), { s with used := buf.length, active := false }) := by
    rw [qwScannerNext, if_neg inside, findGuard_none guards.preguard_ne absent]
  have ended : buf.drop buf.length = [] := drop_length
  rw [qwFileLoop, scanned]
  dsimp only
  rw [dif_neg nofun, qwFileLoop_empty ended]

variable {before after : Bytes}

theorem drop_behind {guard : Bytes} {start : Nat} (split : buf.drop start = before ++ (guard ++ after)) :
    buf.drop (start + before.length + guard.length) = after := by
  rw [Nat.add_assoc, ← drop_drop, split, ← append_assoc, drop_left' length_append]

theorem qwFileLoop_unmatched (split : buf.drop s.used = before ++ (guards.preguard ++ after))
    (found : GuardAt guards.preguard (buf.drop s.used) before.length)
    (absent : ∀ place, ¬ GuardAt guards.postguard after place) (state : State) :
    qwFileLoop eval buf guards s state = ([], .unmatchedPreguard) := by
  have inside : ¬ buf.length ≤ s.used := by
    intro ended
    rw [drop_eq_nil_of_le ended] at split
    exact guards.preguard_ne (append_eq_nil_iff.mp (append_eq_nil_iff.mp split.symm).2).1
  have pre := (findGuard_iff guards.preguard_ne).mpr ⟨_, rfl, found⟩
  rw [← drop_behind split] at absent
  have scanned : qwScannerNext buf guards s = none := by
    rw [qwScannerNext, if_neg inside, pre]
    dsimp only
    rw [findGuard_none guards.postguard_ne absent]
  rw [qwFileLoop, scanned]

variable {snippet : Bytes}

theorem qwFileLoop_region
    (split : buf.drop s.used = before ++ (guards.preguard ++ (snippet ++ (guards.postguard ++ after))))
    (found : GuardAt guards.preguard (buf.drop s.used) before.length)
    (found' : GuardAt guards.postguard (snippet ++ (guards.postguard ++ after)) snippet.length) :
    ∃ next : QwScanner, buf.drop next.used = after ∧ ∀ state,
      qwFileLoop eval buf guards s state = match eval snippet state with
        | .error err => ([before], .failed err)
        | .ok (value, state) =>
          (before :: value :: (qwFileLoop eval buf guards next state).1,
            (qwFileLoop eval buf guards next state).2) := by
  have inside : ¬ buf.length ≤ s.used := by
    intro ended
    rw [drop_eq_nil_of_le ended] at split
    exact guards.preguard_ne (append_eq_nil_iff.mp (append_eq_nil_iff.mp split.symm).2).1
  have pre := (findGuard_iff guards.preguard_ne).mpr ⟨_, rfl, found⟩
  have behind := drop_behind split
  rw [← behind] at found'
  have post := (findGuard_iff guards.postguard_ne).mpr ⟨_, rfl, found'⟩
  let active : QwScanner :=
    { used := s.used + before.length + guards.preguard.length, active := true,
      qwEnd := s.used + before.length + guards.preguard.length + snippet.length }
  have scanned : qwScannerNext buf guards s = some (.raw before, active) := by
    rw [qwScannerNext, if_neg inside, pre]
    dsimp only
    rw [post, dstrSlice, split, Nat.add_sub_cancel_left, take_left]
  have text : qwSnippet buf active = snippet := by
    rw [qwSnippet, dstrSlice, behind, Nat.add_sub_cancel_left, take_left]
  refine ⟨active.eoq guards, drop_behind behind, fun state => ?_⟩
  rw [qwFileLoop, scanned]
  dsimp only
  rw [dif_pos rfl, text]

end

/-! ### What a template should become -/

/-- What is given for a template and how it ends: the text outside of the regions from a preguard to
the first postguard behind it, and for each region the value of its snippet. -/
inductive QwExpanded {State Err : Type} (eval : Bytes → State → Except Err (Bytes × State))
    (guards : QwGuards) : Bytes → State → List Bytes → QwFileEnd State Err → Prop where
  | empty (state : State) : QwExpanded eval guards [] state [] (.done state)
  | rest {text : Bytes} (state : State) : text ≠ [] →
    (∀ place, ¬ guards.preguard <+: text.drop place) →
    QwExpanded eval guards text state [text] (.done state)
  | unmatched {before after : Bytes} (state : State) :
    IsFirst guards.preguard (before ++ (guards.preguard ++ after)) before.length →
    (∀ place, ¬ guards.postguard <+: after.drop place) →
    QwExpanded eval guards (before ++ (guards.preguard ++ after)) state [] .unmatchedPreguard
  | failed {before snippet after : Bytes} {state : State} {err : Err} :
    IsFirst guards.preguard
      (before ++ (guards.preguard ++ (snippet ++ (guards.postguard ++ after)))) before.length →
    IsFirst guards.postguard (snippet ++ (guards.postguard ++ after)) snippet.length →
    eval snippet state = .error err →
    QwExpanded eval guards
      (before ++ (guards.preguard ++ (snippet ++ (guards.postguard ++ after)))) state [before]
      (.failed err)
  | region {before snippet after value : Bytes} {state next : State} {chunks : List Bytes}
    {last : QwFileEnd State Err} :
    IsFirst guards.preguard
      (before ++ (guards.preguard ++ (snippet ++ (guards.postguard ++ after)))) before.length →
    IsFirst guards.postguard (snippet ++ (guards.postguard ++ after)) snippet.length →
    eval snippet state = .ok (value, next) → QwExpanded eval guards after next chunks last →
    QwExpanded eval guards
      (before ++ (guards.preguard ++ (snippet ++ (guards.postguard ++ after)))) state
      (before :: value :: chunks) last

/-- Every guard at which a template is split is one at which the search for it begins anew. A
preguard that stays unmatched may be found at a later place instead. -/
inductive QwReached (guards : QwGuards) : Bytes → Prop where
  | rest {text : Bytes} : (∀ place, ¬ guards.preguard <+: text.drop place) → QwReached guards text
  | unmatched {before after : Bytes} :
    IsFirst guards.preguard (before ++ (guards.preguard ++ after)) before.length →
    (∃ place, GuardAt guards.preguard (before ++ (guards.preguard ++ after)) place) →
    (∀ place, ¬ guards.postguard <+: after.drop place) →
    QwReached guards (before ++ (guards.preguard ++ after))
  | region {before snippet after : Bytes} :
    IsFirst guards.preguard
      (before ++ (guards.preguard ++ (snippet ++ (guards.postguard ++ after)))) before.length →
    Fresh guards.preguard
      (before ++ (guards.preguard ++ (snippet ++ (guards.postguard ++ after)))) before.length →
    IsFirst guards.postguard (snippet ++ (guards.postguard ++ after)) snippet.length →
    Fresh guards.postguard (snippet ++ (guards.postguard ++ after)) snippet.length →
    QwReached guards after →
    QwReached guards (before ++ (guards.preguard ++ (snippet ++ (guards.postguard ++ after))))

theorem occurs_behind {front : Bytes} {place : Nat} (occurs : guard <+: text.drop place) :
    guard <+: (front ++ text).drop (front.length + place) := by
  rw [← drop_drop, drop_left]
  exact occurs

/-- A preguard that stays unmatched is so wherever it is found. -/
theorem unmatched_later {guards : QwGuards} {before after front behind : Bytes}
    (first : IsFirst guards.preguard (before ++ (guards.preguard ++ after)) before.length)
    (none : ∀ place, ¬ guards.postguard <+: after.drop place)
    (split : before ++ (guards.preguard ++ after) = front ++ (guards.preguard ++ behind)) :
    ∀ place, ¬ guards.postguard <+: behind.drop place := by
  intro place occurs
  have later : before.length ≤ front.length := by
    by_contra sooner
    refine first.2 front.length (Nat.lt_of_not_le sooner) ?_
    rw [split, drop_left]
    exact prefix_append _ _
  obtain ⟨between, rfl⟩ : ∃ between, after = between ++ behind := by
    rw [← append_assoc, ← append_assoc] at split
    obtain ⟨between, -, rest⟩ | ⟨between, same, rest⟩ := append_eq_append_iff.mp split
    · exact ⟨between, rest⟩
    · have lengths := congrArg length same
      rw [length_append, length_append, length_append] at lengths
      obtain rfl : between = [] := length_eq_zero_iff.mp (by omega)
      exact ⟨[], rest.symm⟩
  exact none _ (occurs_behind occurs)

section
variable {State Err : Type} {eval : Bytes → State → Except Err (Bytes × State)} {buf : Bytes}
  {guards : QwGuards}

/-- As long as the guards are where the search begins anew, the loop gives what it should. -/
theorem qwFileLoop_expanded {text : Bytes} (reached : QwReached guards text) {s : QwScanner}
    (here : buf.drop s.used = text) (state : State) :
    QwExpanded eval guards text state (qwFileLoop eval buf guards s state).1
      (qwFileLoop eval buf guards s state).2 := by
  induction reached generalizing s state with
  | @rest text absent =>
    obtain rfl | more := eq_or_ne text []
    · rw [qwFileLoop_empty here]
      exact .empty state
    · subst here
      rw [qwFileLoop_rest more fun place found => absent place found.2]
      exact .rest state more absent
  | @unmatched before after first some none =>
    obtain ⟨place, found⟩ := some
    obtain ⟨front, behind, split, rfl⟩ := found.split guards.preguard_ne
    have later := unmatched_later first none split
    rw [qwFileLoop_unmatched (here.trans split) (here ▸ found) fun place found =>
      later place found.2]
    exact .unmatched state first none
  | @region before snippet after first fresh first' fresh' _ ih =>
    have found : GuardAt guards.preguard (buf.drop s.used) before.length :=
      here ▸ ⟨fresh, first.1⟩
    obtain ⟨next, rest, loop⟩ := qwFileLoop_region here found ⟨fresh', first'.1⟩
    rw [loop]
    cases result : eval snippet state with
    | error err => exact .failed first first' result
    | ok pair => exact .region first first' result (ih rest pair.2)

theorem none_of_single {text piece : Bytes} {state last : State}
    (expanded : QwExpanded eval guards text state [piece] (.done last)) :
    ∀ place, ¬ guards.preguard <+: text.drop place := by
  generalize one : [piece] = chunks at expanded
  generalize ended : QwFileEnd.done last = outcome at expanded
  cases expanded with
  | empty => exact absurd one nofun
  | rest _ _ none => exact none
  | unmatched => exact absurd one nofun
  | failed => exact absurd ended nofun
  | region => exact absurd (cons.inj one).2 nofun

/-- Every snippet is its own value. -/
def selfValue (snippet : Bytes) (state : Unit) : Except Unit (Bytes × Unit) := .ok (snippet, state)

/-- If the loop gives what it should where every snippet is its own value, then the guards are where
the search begins anew. -/
theorem reached_of_expanded {text : Bytes} {s : QwScanner} (here : buf.drop s.used = text)
    (expanded : QwExpanded selfValue guards text () (qwFileLoop selfValue buf guards s ()).1
      (qwFileLoop selfValue buf guards s ()).2) :
    QwReached guards text := by
  induction length : text.length using Nat.strongRecOn generalizing s text with
  | ind size ih =>
    by_cases empty : text = []
    · refine .rest fun place occurs => guards.preguard_ne ?_
      rw [empty, drop_nil] at occurs
      exact prefix_nil.mp occurs
    · by_cases some : ∃ place, GuardAt guards.preguard text place
      · obtain ⟨place, found⟩ := some
        obtain ⟨before, behind, split, rfl⟩ := found.split guards.preguard_ne
        by_cases some' : ∃ place, GuardAt guards.postguard behind place
        · obtain ⟨place', found'⟩ := some'
          obtain ⟨snippet, after, rfl, rfl⟩ := found'.split guards.postguard_ne
          obtain ⟨next, rest, loop⟩ := qwFileLoop_region (here.trans split) (here ▸ found) found'
          rw [loop, selfValue] at expanded
          cases expanded with
          | region first first' valued more =>
            cases valued
            obtain rfl := append_cancel_left (append_cancel_left (append_cancel_left
              (append_cancel_left split)))
            refine .region first found.1 first' found'.1 (ih _ ?_ rest more rfl)
            have present := length_pos_iff.mpr guards.preguard_ne
            simp only [← length, length_append]
            omega
        · rw [qwFileLoop_unmatched (here.trans split) (here ▸ found)
            fun place found' => some' ⟨place, found'⟩] at expanded
          cases expanded with
          | unmatched _ first none => exact .unmatched first ⟨_, found⟩ none
      · have absent : ∀ place, ¬ GuardAt guards.preguard (buf.drop s.used) place :=
          fun place found => some ⟨place, here ▸ found⟩
        rw [qwFileLoop_rest (here ▸ empty) absent, here] at expanded
        exact .rest (none_of_single expanded)

end

/-! ### Templates -/

/-- The guard is found at its first occurrence from a position on, and nothing is found exactly if
there is none. -/
def FindsGuard (buf : Bytes) (start : Nat) (guard : Bytes) : Prop :=
  (∀ position, findGuard buf start guard = some position ↔
    start ≤ position ∧ guard <+: buf.drop position ∧
      ∀ earlier, start ≤ earlier → earlier < position → ¬ guard <+: buf.drop earlier) ∧
  (findGuard buf start guard = none ↔ ∀ position, start ≤ position → ¬ guard <+: buf.drop position)

/-- The search begins anew at the first occurrence of the guard from a position on. -/
def GuardReached (buf : Bytes) (start : Nat) (guard : Bytes) : Prop :=
  ∀ place, IsFirst guard (buf.drop start) place → Fresh guard (buf.drop start) place

theorem isFirst_drop_iff {buf : Bytes} {start place : Nat} :
    IsFirst guard (buf.drop start) place ↔
      guard <+: buf.drop (start + place) ∧
        ∀ earlier, start ≤ earlier → earlier < start + place → ¬ guard <+: buf.drop earlier := by
  unfold IsFirst
  rw [drop_drop]
  refine and_congr_right fun _ => ⟨fun none earlier behind before => ?_, fun none earlier before => ?_⟩
  · have miss := none (earlier - start) (by omega)
    rwa [drop_drop, Nat.add_sub_of_le behind] at miss
  · rw [drop_drop]
    exact none (start + earlier) (by omega) (by omega)

theorem findsGuard_iff (present : guard ≠ []) (buf : Bytes) (start : Nat) :
    FindsGuard buf start guard ↔ GuardReached buf start guard := by
  have finds : ∀ {place}, findGuard buf start guard = some (start + place) ↔
      Fresh guard (buf.drop start) place ∧ guard <+: (buf.drop start).drop place := by
    intro place
    rw [findGuard_iff present]
    constructor
    · rintro ⟨other, same, found⟩
      obtain rfl : place = other := Nat.add_left_cancel same
      exact found
    · exact fun found => ⟨place, rfl, found⟩
  unfold GuardReached
  rw [← exact_iff finds]
  constructor
  · intro exact' place
    rw [exact'.1, isFirst_drop_iff]
    exact and_iff_right (Nat.le_add_right start place)
  · intro exact'
    have first : ∀ position, findGuard buf start guard = some position ↔
        start ≤ position ∧ guard <+: buf.drop position ∧
          ∀ earlier, start ≤ earlier → earlier < position → ¬ guard <+: buf.drop earlier := by
      intro position
      constructor
      · intro found
        obtain ⟨place, rfl, -⟩ := (findGuard_iff present).mp found
        exact ⟨Nat.le_add_right start place, isFirst_drop_iff.mp ((exact' place).mp found)⟩
      · rintro ⟨behind, occurs⟩
        obtain ⟨place, rfl⟩ := Nat.exists_eq_add_of_le behind
        exact (exact' place).mpr (isFirst_drop_iff.mpr occurs)
    refine ⟨first, fun none position behind occurs => ?_, fun none => ?_⟩
    · obtain ⟨place, rfl⟩ := Nat.exists_eq_add_of_le behind
      rw [← drop_drop] at occurs
      obtain ⟨least, isFirst⟩ := exists_isFirst occurs
      rw [(exact' least).mpr isFirst] at none
      exact absurd none nofun
    · cases result : findGuard buf start guard with
      | none => rfl
      | some position =>
        obtain ⟨behind, occurs, -⟩ := (first position).mp result
        exact absurd occurs (none position behind)

/-- A template is split right if and only if its guards are where the search for them begins anew: a
search finds the first guard from where it starts exactly in that case, and `qw_file` gives the text
outside of the regions and the values of their snippets, whatever these are, exactly if it is so at
every guard at which the template is split. No guard is ever missed exactly if it repeats one byte. -/
theorem template_split_iff (buf guard : Bytes) (start : Nat) (guards : QwGuards) (present : guard ≠ []) :
    (FindsGuard buf start guard ↔ GuardReached buf start guard) ∧
    ((∀ (State Err : Type) (eval : Bytes → State → Except Err (Bytes × State)) (state : State),
        QwExpanded eval guards buf state (qwFile eval buf guards state).1
          (qwFile eval buf guards state).2) ↔
      QwReached guards buf) ∧
    ((∀ buf start, FindsGuard buf start guard) ↔
      ∃ byte, guard = replicate guard.length byte) := by
  refine ⟨findsGuard_iff present buf start, ?_, ?_⟩
  · constructor
    · exact fun expanded => reached_of_expanded rfl (expanded Unit Unit selfValue ())
    · exact fun reached State Err eval state => qwFileLoop_expanded reached rfl state
  · rw [← fresh_iff_replicate present]
    constructor
    · exact fun finds text => (findsGuard_iff present text 0).mp (finds text 0)
    · exact fun fresh buf start => (findsGuard_iff present buf start).mpr (fresh (buf.drop start))

/-- The guards `QW` and `WQ`. -/
def qwGuards : QwGuards := ⟨[81, 87], [87, 81], nofun, nofun⟩

theorem template_split_found :
    FindsGuard [123, 81, 123, 123] 0 [123, 123] ↔ GuardReached [123, 81, 123, 123] 0 [123, 123] :=
  (template_split_iff [123, 81, 123, 123] [123, 123] 0 qwGuards nofun).1

/-- The search for `QW` misses it in `QQW`, and a template that begins so is given as it stands. -/
theorem template_split_missed :
    ¬ FindsGuard [81, 81, 87, 120, 87, 81] 0 [81, 87] ∧
      qwFile selfValue [81, 81, 87, 120, 87, 81] qwGuards () =
        ([[81, 81, 87, 120, 87, 81]], .done ()) ∧
      ¬ QwExpanded selfValue qwGuards [81, 81, 87, 120, 87, 81] ()
        (qwFile selfValue [81, 81, 87, 120, 87, 81] qwGuards ()).1
        (qwFile selfValue [81, 81, 87, 120, 87, 81] qwGuards ()).2 := by
  have given : qwFile selfValue [81, 81, 87, 120, 87, 81] qwGuards () =
      ([[81, 81, 87, 120, 87, 81]], .done ()) := by decide +kernel
  have occurs : [81, 87] <+: drop 1 ([81, 81, 87, 120, 87, 81] : Bytes) := by decide
  refine ⟨fun finds => ?_, given, fun expanded => ?_⟩
  · have missed : findGuard [81, 81, 87, 120, 87, 81] 0 [81, 87] = none := by decide
    exact finds.2.mp missed 1 (Nat.zero_le 1) occurs
  · rw [given] at expanded
    exact none_of_single expanded 1 occurs

end Splintermail
