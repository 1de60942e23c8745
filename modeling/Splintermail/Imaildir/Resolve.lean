/-
This file connects the two models of how a command resolves its message set.

A connection resolves a set to the uids of its view that the set covers, and looks for what
it needs in the view. The source goes through the set one number at a time, collects the uids
in a builder, and goes through the result for the keys and the predictions. Both come to the
same, unless the largest uid there is is doubled: the connection has each uid once.
-/

import Mathlib.Data.List.Sort
import Splintermail.Imaildir.Conn
import Splintermail.Imaildir.StoreReport

namespace Splintermail

open List Conn IeSeqSet IeSeqRange

/-! ### The uids of a set -/

/-- A range of `ie_seq_set_t`, as a connection takes it. -/
def IeSeqRange.toSeqRange (range : IeSeqRange) : SeqRange where
  n1 := range.n1
  n2 := range.n2

theorem IeSeqRange.covers_iff (range : IeSeqRange) (last number : Nat) :
    range.toSeqRange.covers last number = true ↔ range.Denotes last number := by
  unfold SeqRange.covers Denotes low high resolve toSeqRange
  rw [Bool.and_eq_true, decide_eq_true_eq, decide_eq_true_eq]
  simp only [ne_eq, ite_not]

variable {set : IeSeqSet}

theorem any_covers_iff {last number : Nat} :
    ((set.map toSeqRange).any (·.covers last number)) = true ↔
      ∃ range ∈ set, range.Denotes last number := by
  rw [any_map, any_eq_true]
  exact exists_congr fun range => and_congr_right fun _ => range.covers_iff last number

variable {views : List MsgView}

theorem mem_coveredUids {last uidDn : Nat} :
    uidDn ∈ coveredUids (set.map toSeqRange) last views ↔
      ∃ (index : Nat) (view : MsgView), views[index]? = some view ∧ view.uidDn = uidDn ∧
        ∃ range ∈ set, range.Denotes last view.uidDn := by
  unfold coveredUids
  rw [mem_filter, mem_map, any_covers_iff]
  constructor
  · rintro ⟨⟨view, mem, rfl⟩, denoted⟩
    obtain ⟨index, at_⟩ := mem_iff_getElem?.mp mem
    exact ⟨index, view, at_, rfl, denoted⟩
  · rintro ⟨index, view, at_, rfl, denoted⟩
    exact ⟨⟨view, mem_of_getElem? at_, rfl⟩, denoted⟩

theorem mem_coveredSeqs {last seq uidDn : Nat} :
    uidDn ∈ coveredSeqs (set.map toSeqRange) last seq views ↔
      ∃ index view, views[index]? = some view ∧ view.uidDn = uidDn ∧
        ∃ range ∈ set, range.Denotes last (index + seq) := by
  induction views generalizing seq with
  | nil => exact iff_of_false not_mem_nil fun ⟨_, _, at_, _⟩ => nomatch at_
  | cons view rest ih =>
    have behind : uidDn ∈ coveredSeqs (set.map toSeqRange) last (seq + 1) rest ↔
        ∃ index later, (view :: rest)[index + 1]? = some later ∧ later.uidDn = uidDn ∧
          ∃ range ∈ set, range.Denotes last (index + 1 + seq) := by
      rw [ih]
      simp only [getElem?_cons_succ, Nat.add_right_comm _ 1 seq, Nat.add_assoc]
    have front : (∃ range ∈ set, range.Denotes last seq) ∧ view.uidDn = uidDn ∨
        uidDn ∈ coveredSeqs (set.map toSeqRange) last (seq + 1) rest ↔
        ∃ index later, (view :: rest)[index]? = some later ∧ later.uidDn = uidDn ∧
          ∃ range ∈ set, range.Denotes last (index + seq) := by
      rw [behind]
      constructor
      · rintro (⟨denoted, same⟩ | ⟨index, later, at_, same, denoted⟩)
        · exact ⟨0, view, rfl, same, by rwa [Nat.zero_add]⟩
        · exact ⟨index + 1, later, at_, same, denoted⟩
      · rintro ⟨index, later, at_, same, denoted⟩
        cases index with
        | zero =>
          cases at_
          exact .inl ⟨by rwa [Nat.zero_add] at denoted, same⟩
        | succ index => exact .inr ⟨index, later, at_, same, denoted⟩
    rw [← front, coveredSeqs]
    by_cases covered : ((set.map toSeqRange).any (·.covers last seq)) = true
    · rw [if_pos covered, mem_cons, and_iff_right (any_covers_iff.mp covered), eq_comm]
    · rw [if_neg covered]
      exact (or_iff_right fun both => covered (any_covers_iff.mpr both.1)).symm

theorem coveredSeqs_sublist (set : List SeqRange) (last seq : Nat) (views : List MsgView) :
    (coveredSeqs set last seq views).Sublist (views.map MsgView.uidDn) := by
  induction views generalizing seq with
  | nil => exact .slnil
  | cons view rest ih =>
    unfold coveredSeqs
    split
    · exact (ih (seq + 1)).cons_cons _
    · exact (ih (seq + 1)).cons _

theorem Numbered.uids (numbered : Numbered views) :
    (views.map MsgView.uidDn).Pairwise (· < ·) := pairwise_map.mpr numbered.sorted

/-- What a connection resolves a set to: nothing if the set is not valid, else the uids that it
denotes, in ascending order and once each. -/
theorem Conn.canonicalUids_denotes (conn : Conn) (numbered : Numbered conn.dn.views) (uidMode : Bool)
    (set : IeSeqSet) :
    ∃ found, conn.canonicalUids uidMode (set.map toSeqRange) = .ok found ∧
      (found = none ↔ SetInvalid conn.dn.views uidMode set) ∧
      ∀ uids, found = some uids → uids.Pairwise (· < ·) ∧
        ∀ uidDn, uidDn ∈ uids ↔ SetDenotes conn.dn.views uidMode set uidDn := by
  unfold canonicalUids
  dsimp only
  cases isLast : conn.dn.views.getLast? with
  | none =>
    have empty := getLast?_eq_none_iff.mp isLast
    rw [empty]
    refine ⟨_, rfl, ?_, ?_⟩
    · cases uidMode with
      | true => exact iff_of_false nofun fun invalid => nomatch invalid.1
      | false => exact iff_of_true rfl ⟨rfl, .inl rfl⟩
    · intro uids found
      cases uidMode with
      | true =>
        cases found
        exact ⟨.nil, fun uidDn => iff_of_false not_mem_nil fun ⟨_, _, at_, _⟩ => nomatch at_⟩
      | false => cases found
  | some last =>
    cases uidMode with
    | true =>
      refine ⟨_, rfl, iff_of_false nofun fun invalid => (nomatch invalid.1), ?_⟩
      intro uids found
      cases found
      refine ⟨numbered.uids.filter _, fun uidDn => ?_⟩
      rw [mem_coveredUids]
      unfold SetDenotes largestNumber viewNumber
      rw [isLast]
      rfl
    | false =>
      have size := numbered.length_le
      have inhabited : conn.dn.views ≠ [] := fun empty => by
        rw [empty] at isLast
        cases isLast
      have positive := length_pos_iff.mpr inhabited
      have numbersFit : indexToSeqNum (conn.dn.views.length - 1) = .ok conn.dn.views.length := by
        unfold indexToSeqNum
        rw [if_neg (by omega), Nat.sub_add_cancel positive]
      have refuses : ((set.map toSeqRange).any
          fun range => max range.n1 range.n2 > conn.dn.views.length) = true ↔
          SetInvalid conn.dn.views false set := by
        rw [any_map, any_eq_true]
        simp only [Function.comp_apply, decide_eq_true_eq, gt_iff_lt, lt_max_iff]
        exact ⟨fun above => ⟨rfl, .inr above⟩, fun invalid => invalid.2.resolve_left inhabited⟩
      dsimp only
      rw [if_neg Bool.false_ne_true, numbersFit]
      by_cases invalid : ((set.map toSeqRange).any
          fun range => max range.n1 range.n2 > conn.dn.views.length) = true
      · exact ⟨none, if_pos invalid, iff_of_true rfl (refuses.mp invalid), nofun⟩
      · refine ⟨_, if_neg invalid,
          iff_of_false nofun fun refused => invalid (refuses.mpr refused), ?_⟩
        intro uids found
        cases found
        exact ⟨numbered.uids.sublist (coveredSeqs_sublist _ _ _ _), fun uidDn => mem_coveredSeqs⟩

/-- The source resolves a set to the same uids, where one of them may be doubled. -/
theorem Conn.canonicalUids_eq (conn : Conn) (numbered : Numbered conn.dn.views) (uidMode : Bool)
    (fits : ∀ range ∈ set, range.Fits) :
    conn.canonicalUids uidMode (set.map toSeqRange) =
      (seqSetToCanonicalUidsDn conn.dn.views uidMode set).map fun resolved =>
        if resolved.2 then some (expand resolved.1).dedup else none := by
  obtain ⟨found, finds, refused, denotes⟩ := conn.canonicalUids_denotes numbered uidMode set
  obtain ⟨out, ok, resolved, canonical, invalid, right⟩ :=
    seqSetToCanonicalUidsDn_denotes numbered uidMode set fits
  rw [finds, resolved]
  refine congrArg Except.ok ?_
  cases ok with
  | false => exact refused.mpr (invalid.mp rfl)
  | true =>
    have valid : found ≠ none := fun none => Bool.false_ne_true (invalid.mpr (refused.mp none)).symm
    obtain ⟨uids, rfl⟩ := Option.ne_none_iff_exists'.mp valid
    obtain ⟨ascending, members⟩ := denotes uids rfl
    have weak := canonical.weak.1.sublist (dedup_sublist (expand out))
    have strict : (expand out).dedup.Pairwise (· < ·) :=
      (weak.and (nodup_dedup _)).imp fun both => lt_of_le_of_ne both.1 both.2
    refine congrArg some (ascending.eq_of_mem_iff strict fun uidDn => ?_)
    rw [members, mem_dedup, (right rfl).1]

/-! ### The messages of a set -/

section Messages

variable {views chosen : List MsgView}

theorem Numbered.chosen_uids (numbered : Numbered views) {uids : List Nat}
    (ascending : uids.Pairwise (· < ·)) (inViews : ∀ uidDn ∈ uids, uidDn ∈ viewUids views) :
    (views.filter fun view => view.uidDn ∈ uids).map MsgView.uidDn = uids := by
  have strict : ((views.filter fun view => view.uidDn ∈ uids).map MsgView.uidDn).Pairwise (· < ·) :=
    pairwise_map.mpr (numbered.sorted.filter _)
  refine strict.eq_of_mem_iff ascending fun uidDn => ?_
  rw [mem_map]
  constructor
  · rintro ⟨view, mem, rfl⟩
    exact of_decide_eq_true (mem_filter.mp mem).2
  · intro mem
    obtain ⟨view, inView, rfl⟩ := mem_map.mp (inViews uidDn mem)
    exact ⟨view, mem_filter.mpr ⟨inView, decide_eq_true mem⟩, rfl⟩

/-- A loop over the uids of messages that looks for each in the view is one over the messages. -/
theorem foldlM_find_map {State : Type} (numbered : Numbered views) (inViews : ∀ view ∈ chosen, view ∈ views)
    (missing : Derr) (body : State → Nat → MsgView → Except Derr State) (state : State) :
    (chosen.map MsgView.uidDn).foldlM (fun state uidDn =>
        match Tree.find MsgView.uidDn uidDn views with
        | none => .error missing
        | some view => body state uidDn view) state =
      chosen.foldlM (fun state view => body state view.uidDn view) state := by
  induction chosen generalizing state with
  | nil => rfl
  | cons view rest ih =>
    have found : Tree.find MsgView.uidDn view.uidDn views = some view :=
      numbered.sorted.find_eq_some.mpr ⟨inViews view mem_cons_self, rfl⟩
    rw [map_cons, foldlM_cons, foldlM_cons, found]
    refine congrArg (body state view.uidDn view >>= ·) (funext fun next => ?_)
    exact ih (fun other mem => inViews other (.tail _ mem)) next

/-- A loop over uids that looks for each in the view is one over the messages that have them. -/
theorem foldlM_find {State : Type} (numbered : Numbered views) {uids : List Nat}
    (ascending : uids.Pairwise (· < ·)) (inViews : ∀ uidDn ∈ uids, uidDn ∈ viewUids views)
    (missing : Derr) (body : State → Nat → MsgView → Except Derr State) (state : State) :
    uids.foldlM (fun state uidDn =>
        match Tree.find MsgView.uidDn uidDn views with
        | none => .error missing
        | some view => body state uidDn view) state =
      (views.filter fun view => view.uidDn ∈ uids).foldlM
        (fun state view => body state view.uidDn view) state := by
  have loop := foldlM_find_map numbered (fun view (mem : view ∈ views.filter fun view =>
    view.uidDn ∈ uids) => (mem_filter.mp mem).1) missing body state
  rwa [numbered.chosen_uids ascending inViews] at loop

theorem foldlM_keys (keys : List MsgKey) :
    chosen.foldlM (fun keys view => (.ok (view.key :: keys) : Except Derr (List MsgKey))) keys =
      .ok (keysOf chosen ++ keys) := by
  induction chosen generalizing keys with
  | nil => rfl
  | cons view rest ih =>
    rw [foldlM_cons]
    refine (ih (view.key :: keys)).trans (congrArg Except.ok ?_)
    unfold keysOf
    rw [map_cons, reverse_cons, append_assoc]
    rfl

/-- Predictions that are made in the order of the uids come one behind the other. -/
theorem foldlM_predictions (sign : Int) (flags : MsgFlags) {tree : List ExpFlags}
    (sorted : Tree.Sorted MsgView.uidDn chosen)
    (before : ∀ expected ∈ tree, ∀ view ∈ chosen, expected.uidDn < view.uidDn) :
    chosen.foldlM (fun tree view => do
        let newFlags ← storeFlags sign view.flags flags
        return Tree.insert ExpFlags.uidDn ⟨view.uidDn, newFlags⟩ tree) tree =
      (expectFlags sign flags chosen).map (tree ++ ·) := by
  induction chosen generalizing tree with
  | nil => exact congrArg Except.ok (append_nil tree).symm
  | cons view rest ih =>
    obtain ⟨above, restSorted⟩ := pairwise_cons.mp sorted
    unfold expectFlags
    rw [foldlM_cons]
    cases makes : storeFlags sign view.flags flags with
    | error error => rfl
    | ok made =>
      have appended : Tree.insert ExpFlags.uidDn ⟨view.uidDn, made⟩ tree = tree ++ [⟨view.uidDn, made⟩] :=
        Tree.insert_eq_append fun expected mem => before expected mem view mem_cons_self
      have others := @ih (tree ++ [⟨view.uidDn, made⟩]) restSorted
        fun expected mem other inRest => by
          obtain old | new := mem_append.mp mem
          · exact before expected old other (.tail _ inRest)
          · obtain rfl := mem_singleton.mp new
            exact above other inRest
      change rest.foldlM _ (Tree.insert ExpFlags.uidDn ⟨view.uidDn, made⟩ tree) = _
      rw [appended]
      refine others.trans ?_
      cases expectFlags sign flags rest with
      | error error => rfl
      | ok expected => exact congrArg Except.ok (append_assoc tree _ expected)

end Messages

/-! ### Beginning a command -/

/-- The keys that are looked for one by one are those of the messages with these uids. -/
theorem uidsDnToMsgKeys_eq (conn : Conn) (numbered : Numbered conn.dn.views) {uidsDn : IeSeqSet}
    (canonical : Canonical uidsDn) (ascending : (expand uidsDn).Pairwise (· < ·))
    (inViews : ∀ uidDn ∈ expand uidsDn, uidDn ∈ viewUids conn.dn.views) :
    uidsDnToMsgKeys conn.dn.views uidsDn = .ok (conn.uidsDnToMsgKeys (expand uidsDn)) := by
  have loop := foldlM_find numbered ascending inViews ⟨.internal, "canonical list has missing uid"⟩
    (fun (keys : List MsgKey) _ (view : MsgView) => .ok (view.key :: keys)) []
  rw [foldlM_keys, append_nil] at loop
  unfold uidsDnToMsgKeys
  rw [canonical.values_eq]
  exact loop

/-- The predictions that are made one by one are those for the messages with these uids. -/
theorem predictFlags_eq (numbered : Numbered views) (sign : Int) (flags : MsgFlags)
    {uidsDn : IeSeqSet} (canonical : Canonical uidsDn)
    (ascending : (expand uidsDn).Pairwise (· < ·))
    (inViews : ∀ uidDn ∈ expand uidsDn, uidDn ∈ viewUids views) :
    predictFlags views sign flags uidsDn =
      expectFlags sign flags (views.filter fun view => view.uidDn ∈ expand uidsDn) := by
  have loop := foldlM_find numbered ascending inViews ⟨.internal, "uid_dn not found"⟩
    (fun tree uidDn view => do
      let newFlags ← storeFlags sign view.flags flags
      return Tree.insert ExpFlags.uidDn ⟨uidDn, newFlags⟩ tree) []
  rw [@foldlM_predictions _ sign flags [] (numbered.sorted.filter _) nofun] at loop
  unfold predictFlags
  rw [canonical.values_eq]
  refine loop.trans ?_
  cases expectFlags sign flags (views.filter fun view => view.uidDn ∈ expand uidsDn) <;> rfl

theorem IeSeqSet.Canonical.expand_eq_nil (canonical : Canonical set) :
    expand set = [] ↔ set = [] := by
  refine ⟨fun none => ?_, fun empty => empty ▸ rfl⟩
  obtain ⟨values, sorted, numbers, rfl⟩ := canonical
  cases values with
  | nil => rfl
  | cons value rest =>
    have mem := ((expand_seqSetBuilderExtract sorted fun n inside => (numbers n inside).2).1 value).mpr
      mem_cons_self
    rw [none] at mem
    exact absurd mem not_mem_nil

/-- `ie_store_cmd_t`, as a connection takes it. -/
def IeStoreCmd.args (store : IeStoreCmd) : StoreArgs where
  uidMode := store.uidMode
  seqSet := store.seqSet.map toSeqRange
  sign := store.sign
  silent := store.silent
  flags := msgFlagsFromFlags store.flags

/-- What a STORE comes to, as a connection leaves it. -/
def Conn.storeBegun (conn : Conn) (tagp : Option String) (answers : Answers) (store : IeStoreCmd) :
    StoreBegun → Called
  | .no text => conn.finish tagp .no text [] []
  | .bad text => conn.finish tagp .bad text [] []
  | .noop dn responses freed text =>
    { conn with dn }.finish tagp .ok text (responses.map .message) freed
  | .relays dn keys =>
    { conn := requestUpdate { conn with dn, tag := tagp } answers
      tagp := none
      requests := [.store keys store.sign (msgFlagsFromFlags store.flags)] }

section Begun

variable {conn : Conn} {tagp : Option String} {answers : Answers} {store : IeStoreCmd}

theorem Conn.gatherUpdates_eq (healthy : conn.m = true) {allowExpunge uidMode : Bool} {dn : Dn}
    {responses : List Response} {freed : List Update}
    (gathers : dnGatherUpdates conn.dn allowExpunge uidMode false = .ok (dn, responses, freed)) :
    conn.gatherUpdates allowExpunge uidMode = .ok ({ conn with dn }, responses.map .message, freed) := by
  unfold gatherUpdates healthcheck
  rw [if_pos healthy]
  change (dnGatherUpdates conn.dn allowExpunge uidMode false >>= _) = _
  rw [gathers]
  rfl

/-- A STORE to some uids is relayed with the flags that are expected of their messages. -/
theorem Conn.storeRequest_eq {uids : List Nat} {tree : List ExpFlags}
    (expected : expectFlags store.sign (msgFlagsFromFlags store.flags)
      (conn.dn.views.filter fun view => view.uidDn ∈ uids) = .ok tree) :
    conn.storeRequest tagp answers store.args uids =
      conn.storeBegun tagp answers store (.relays { conn.dn with
        command := some (.store { uidMode := store.uidMode, silent := store.silent, tree }) }
        (conn.uidsDnToMsgKeys uids)) := by
  have begun : storeBegin conn.dn store.args.uidMode store.args.silent store.args.sign store.args.flags uids =
      .ok { conn.dn with
        command := some (.store { uidMode := store.uidMode, silent := store.silent, tree }) } := by
    unfold storeBegin
    change (expectFlags store.sign (msgFlagsFromFlags store.flags) _ >>= _) = _
    rw [expected]
    rfl
  unfold storeRequest
  dsimp only
  rw [begun]
  rfl

end Begun

/-- A connection begins a STORE as the source does, unless the largest uid there is is doubled. -/
theorem Conn.beginStore_eq (conn : Conn) (tagp : Option String) (answers : Answers) {store : IeStoreCmd}
    (healthy : conn.m = true) (numbered : Numbered conn.dn.views)
    (fits : ∀ range ∈ store.seqSet, range.Fits)
    (single : ¬ DoubledMaximum conn.dn.views store.uidMode store.seqSet) {begun : StoreBegun}
    (begins : dnStoreBegin conn.dn store = .ok begun) :
    conn.beginStore tagp answers store.args = conn.storeBegun tagp answers store begun := by
  have resolves := conn.canonicalUids_eq numbered store.uidMode fits
  obtain ⟨uidsDn, ok, resolved, canonical, -, denotes⟩ :=
    seqSetToCanonicalUidsDn_denotes numbered store.uidMode store.seqSet fits
  rw [resolved] at resolves
  unfold dnStoreBegin at begins
  unfold beginStore
  by_cases examine : conn.dn.examine = true
  · rw [if_pos examine] at begins ⊢
    cases begins
    rfl
  rw [if_neg examine] at begins ⊢
  obtain ⟨pair, same, begins⟩ := ok_bind begins
  cases resolved.symm.trans same
  cases ok with
  | false =>
    cases begins
    have invalid : conn.canonicalUids store.args.uidMode store.args.seqSet = .ok none := resolves
    rw [invalid]
    rfl
  | true =>
    obtain ⟨members, ascending⟩ := denotes rfl
    have strict := ascending.mpr single
    have each : (expand uidsDn).dedup = expand uidsDn :=
      dedup_eq_self.mpr (strict.imp Nat.ne_of_lt)
    have valid : conn.canonicalUids store.args.uidMode store.args.seqSet =
        .ok (some (expand uidsDn)) := by
      rw [← each]
      exact resolves
    dsimp only at begins
    rw [if_neg (by decide)] at begins
    by_cases noop : uidsDn = []
    · rw [if_pos noop] at begins
      obtain ⟨⟨dn, responses, freed⟩, gathers, begins⟩ := ok_bind begins
      cases begins
      have gathered := gatherUpdates_eq healthy gathers
      change conn.gatherUpdates store.args.uidMode store.args.uidMode = _ at gathered
      rw [valid, canonical.expand_eq_nil.mpr noop]
      dsimp only
      rw [gathered]
      rfl
    · rw [if_neg noop] at begins
      have inViews : ∀ uidDn ∈ expand uidsDn, uidDn ∈ viewUids conn.dn.views := by
        intro uidDn mem
        obtain ⟨index, view, at_, rfl, -⟩ := (members uidDn).mp mem
        exact mem_map_of_mem (mem_of_getElem? at_)
      obtain ⟨keys, found, begins⟩ := ok_bind begins
      obtain ⟨tree, predicted, begins⟩ := ok_bind begins
      cases begins
      rw [uidsDnToMsgKeys_eq conn numbered canonical strict inViews] at found
      cases found
      rw [predictFlags_eq numbered _ _ canonical strict inViews] at predicted
      obtain ⟨first, others, uids⟩ := exists_cons_of_ne_nil (mt canonical.expand_eq_nil.mp noop)
      rw [valid, uids]
      rw [uids] at predicted
      exact storeRequest_eq predicted

end Splintermail
