/-
This file says what a name in a packet denotes, and proves that the four routines that walk
over names agree with it.

A name is a list of labels. A pointer in it goes on elsewhere in the packet, so the name
also has an end where it stands, after its zero byte or its first pointer. The labels of a
name that ends nowhere, because its pointers lead in a circle or out of the packet, are not
denoted by it: an iterator on it does not return.
-/

import Splintermail.Dns.Packet

namespace Splintermail

open List

namespace Dns

variable {q : Packet}

/-- The labels that the name at an offset denotes. -/
inductive Name (q : Packet) : Nat → List Lstr → Prop
  | root {off : Nat} (zero : q.bytes[off]? = some 0) : Name q off []
  | pointer {off : Nat} {l l2 : UInt8} {labels : List Lstr} (first : q.bytes[off]? = some l)
      (isPointer : IsPointer l) (second : q.bytes[off + 1]? = some l2)
      (rest : Name q (pointee l l2) labels) : Name q off labels
  | label {off : Nat} {l : UInt8} {labels : List Lstr} (first : q.bytes[off]? = some l)
      (notRoot : l ≠ 0) (notPointer : ¬IsPointer l) (rest : Name q (off + 1 + l.toNat) labels) :
      Name q off (⟨off + 1, l.toNat⟩ :: labels)

/-- Where the name at an offset ends. -/
inductive NameEnd (q : Packet) : Nat → Nat → Prop
  | root {off : Nat} (zero : q.bytes[off]? = some 0) : NameEnd q off (off + 1)
  | pointer {off : Nat} {l : UInt8} (first : q.bytes[off]? = some l) (isPointer : IsPointer l) :
      NameEnd q off (off + 2)
  | label {off stop : Nat} {l : UInt8} (first : q.bytes[off]? = some l) (notRoot : l ≠ 0)
      (notPointer : ¬IsPointer l) (rest : NameEnd q (off + 1 + l.toNat) stop) : NameEnd q off stop

/-- The labels of a name in which no pointer leads to a pointer and no label is long. The flag says
that a pointer leads here. -/
inductive StrictName (q : Packet) : Bool → Nat → List Lstr → Prop
  | root {wasPtr : Bool} {off : Nat} (zero : q.bytes[off]? = some 0) : StrictName q wasPtr off []
  | pointer {off : Nat} {l l2 : UInt8} {labels : List Lstr} (first : q.bytes[off]? = some l)
      (isPointer : IsPointer l) (second : q.bytes[off + 1]? = some l2)
      (rest : StrictName q true (pointee l l2) labels) : StrictName q false off labels
  | label {wasPtr : Bool} {off : Nat} {l : UInt8} {labels : List Lstr}
      (first : q.bytes[off]? = some l) (notRoot : l ≠ 0) (notPointer : ¬IsPointer l)
      (short : l.toNat ≤ 63) (rest : StrictName q false (off + 1 + l.toNat) labels) :
      StrictName q wasPtr off (⟨off + 1, l.toNat⟩ :: labels)

/-- The length of a name without pointers. -/
def wireLen (labels : List Lstr) : Nat := (labels.map (·.len + 1)).sum + 1

/-- A name as the first pass admits it. -/
structure ValidName (q : Packet) (off : Nat) (labels : List Lstr) (stop : Nat) : Prop where
  strict : StrictName q false off labels
  stops : NameEnd q off stop
  short : wireLen labels ≤ 255

/-! ### Bytes -/

theorem not_isPointer_zero : ¬IsPointer 0 := by decide

variable {off : Nat} {byte : UInt8}

theorem read_eq (at' : q.bytes[off]? = some byte) : q.read off = .ok byte := by
  unfold Packet.read
  rw [at']

theorem read_ok (result : q.read off = .ok byte) : q.bytes[off]? = some byte := by
  unfold Packet.read at result
  split at result
  · rename_i found
    rw [found]
    exact congrArg some (Except.ok.inj result)
  · exact nomatch result

theorem lt_len (at' : q.bytes[off]? = some byte) : off < q.len :=
  (List.getElem?_eq_some_iff.mp at').1

theorem exists_byte (inside : off < q.len) : ∃ byte, q.bytes[off]? = some byte :=
  ⟨_, getElem?_eq_getElem inside⟩

theorem not_isBadParse (inside : off ≤ q.len) : isBadParse off = false := by
  have fits := q.fits
  unfold Packet.len at inside
  unfold isBadParse bpMinval
  rw [decide_eq_false_iff_not]
  omega

/-- The bytes of a label. -/
def Lstr.bytes (q : Packet) (l : Lstr) : Bytes := (q.bytes.drop l.off).take l.len

theorem readBytes_eq {len : Nat} (inside : off + len ≤ q.len) :
    q.readBytes off len = .ok ((q.bytes.drop off).take len) := by
  induction len generalizing off with
  | zero =>
    rw [take_zero]
    rfl
  | succ len ih =>
    have first : off < q.bytes.length := by
      unfold Packet.len at inside
      omega
    unfold Packet.readBytes
    rw [read_eq (getElem?_eq_getElem first), drop_eq_getElem_cons first, take_succ_cons]
    show (q.readBytes (off + 1) len).bind _ = _
    rw [ih (by omega)]
    rfl

/-! ### What a name denotes -/

variable {labels : List Lstr}

theorem StrictName.name {wasPtr : Bool} (strict : StrictName q wasPtr off labels) :
    Name q off labels := by
  induction strict with
  | root zero => exact .root zero
  | pointer first isPointer second _ rest => exact .pointer first isPointer second rest
  | label first notRoot notPointer _ _ rest => exact .label first notRoot notPointer rest

theorem Name.unique {others : List Lstr} (name : Name q off labels) (other : Name q off others) :
    labels = others := by
  induction name generalizing others with
  | root zero =>
    cases other with
    | root _ => rfl
    | pointer first isPointer _ _ =>
      cases zero.symm.trans first
      exact absurd isPointer not_isPointer_zero
    | label first notRoot _ _ => exact absurd (Option.some.inj (zero.symm.trans first)).symm notRoot
  | pointer first isPointer second _ ih =>
    cases other with
    | root zero =>
      cases zero.symm.trans first
      exact absurd isPointer not_isPointer_zero
    | pointer first' _ second' rest =>
      cases first.symm.trans first'
      cases second.symm.trans second'
      exact ih rest
    | label first' _ notPointer _ =>
      cases first.symm.trans first'
      exact absurd isPointer notPointer
  | label first notRoot notPointer _ ih =>
    cases other with
    | root zero => exact absurd (Option.some.inj (zero.symm.trans first)).symm notRoot
    | pointer first' isPointer _ _ =>
      cases first.symm.trans first'
      exact absurd isPointer notPointer
    | label first' _ _ rest =>
      cases first.symm.trans first'
      rw [ih rest]

variable {stop : Nat}

theorem NameEnd.unique {other : Nat} (stops : NameEnd q off stop) (others : NameEnd q off other) :
    stop = other := by
  induction stops with
  | root zero =>
    cases others with
    | root _ => rfl
    | pointer first isPointer =>
      cases zero.symm.trans first
      exact absurd isPointer not_isPointer_zero
    | label first notRoot _ _ => exact absurd (Option.some.inj (zero.symm.trans first)).symm notRoot
  | pointer first isPointer =>
    cases others with
    | root zero =>
      cases zero.symm.trans first
      exact absurd isPointer not_isPointer_zero
    | pointer _ _ => rfl
    | label first' _ notPointer _ =>
      cases first.symm.trans first'
      exact absurd isPointer notPointer
  | label first notRoot notPointer _ ih =>
    cases others with
    | root zero => exact absurd (Option.some.inj (zero.symm.trans first)).symm notRoot
    | pointer first' isPointer =>
      cases first.symm.trans first'
      exact absurd isPointer notPointer
    | label first' _ _ rest =>
      cases first.symm.trans first'
      exact ih rest

theorem Name.stops (name : Name q off labels) : ∃ stop, NameEnd q off stop ∧ stop ≤ q.len := by
  induction name with
  | root zero => exact ⟨_, .root zero, lt_len zero⟩
  | pointer first isPointer second _ _ => exact ⟨_, .pointer first isPointer, lt_len second⟩
  | label first notRoot notPointer _ ih =>
    obtain ⟨stop, stops, inside⟩ := ih
    exact ⟨stop, .label first notRoot notPointer stops, inside⟩

theorem Name.lt_len (name : Name q off labels) : off < q.len := by
  cases name with
  | root zero => exact Dns.lt_len zero
  | pointer first _ _ _ => exact Dns.lt_len first
  | label first _ _ _ => exact Dns.lt_len first

theorem Name.inside (name : Name q off labels) : ∀ l ∈ labels, l.off + l.len ≤ q.len := by
  induction name with
  | root _ => exact nofun
  | pointer _ _ _ _ ih => exact ih
  | label _ _ _ rest ih =>
    intro l mem
    rcases mem_cons.mp mem with rfl | mem
    · exact Nat.le_of_lt rest.lt_len
    · exact ih l mem

theorem ValidName.name (valid : ValidName q off labels stop) :
    Name q off labels := valid.strict.name

theorem ValidName.stop_le (valid : ValidName q off labels stop) : stop ≤ q.len := by
  obtain ⟨other, others, inside⟩ := valid.name.stops
  rwa [valid.stops.unique others]

/-! ### Skipping -/

theorem skipName_eq (stops : NameEnd q off stop) :
    Returns (fun fuel => skipName q fuel off) stop := by
  induction stops with
  | root zero =>
    refine .last fun fuel => ?_
    unfold skipName
    rw [read_eq zero]
    rfl
  | pointer first isPointer =>
    refine .last fun fuel => ?_
    unfold skipName
    rw [read_eq first]
    exact if_pos isPointer
  | label first notRoot notPointer _ ih =>
    refine ih.succ fun fuel => ?_
    rw [skipName, read_eq first]
    exact (if_neg notPointer).trans (if_neg notRoot)

theorem skipName_ok {fuel : Nat} (result : skipName q fuel off = .ok stop) :
    NameEnd q off stop := by
  induction fuel generalizing off with
  | zero => exact nomatch result
  | succ fuel ih =>
    obtain ⟨l, first, result⟩ := ok_bind result
    have at' := read_ok first
    by_cases isPointer : IsPointer l
    · rw [if_pos isPointer] at result
      cases result
      exact .pointer at' isPointer
    rw [if_neg isPointer] at result
    by_cases root : l = 0
    · rw [if_pos root] at result
      cases result
      exact .root (root ▸ at')
    · rw [if_neg root] at result
      exact .label at' root isPointer (ih result)

/-! ### Iterators -/

/-- At its end the iterator will have used the name it was started on. -/
def Labels.Tracks (q : Packet) (start : Nat) (it : Labels) : Prop :=
  (it.afterPtr = true → NameEnd q start it.used) ∧
    (it.afterPtr = false → ∀ stop, NameEnd q it.pos stop → NameEnd q start stop)

theorem tracks_start (start : Nat) : Labels.Tracks q start { pos := start } :=
  ⟨fun after => (nomatch after), fun _ _ stops => stops⟩

variable {it : Labels}

/-- The next turn after a pointer. -/
theorem labelsNext_pointer {l l2 : UInt8} (first : q.bytes[it.pos]? = some l)
    (isPointer : IsPointer l) (second : q.bytes[it.pos + 1]? = some l2) (fuel : Nat) :
    labelsNext q (fuel + 1) it = labelsNext q fuel { it with
      used := if it.afterPtr then it.used else it.pos + 2
      afterPtr := true
      pos := pointee l l2 } := by
  have notRoot : l ≠ 0 := fun root => not_isPointer_zero (root ▸ isPointer)
  rw [labelsNext, read_eq first]
  refine (if_neg notRoot).trans ((if_pos isPointer).trans ?_)
  rw [read_eq second]
  rfl

theorem labelsNext_root (zero : q.bytes[it.pos]? = some 0) (fuel : Nat) :
    labelsNext q (fuel + 1) it = .ok (none, { it with
      pos := it.pos + 1, used := if it.afterPtr then it.used else it.pos + 1 }) := by
  rw [labelsNext, read_eq zero]
  rfl

theorem labelsNext_label {l : UInt8} (first : q.bytes[it.pos]? = some l) (notRoot : l ≠ 0)
    (notPointer : ¬IsPointer l) (fuel : Nat) :
    labelsNext q (fuel + 1) it =
      .ok (some ⟨it.pos + 1, l.toNat⟩, { it with pos := it.pos + 1 + l.toNat }) := by
  rw [labelsNext, read_eq first]
  exact (if_neg notRoot).trans (if_neg notPointer)

theorem Labels.Tracks.pointer {start : Nat} {l : UInt8} (tracks : it.Tracks q start)
    (first : q.bytes[it.pos]? = some l) (isPointer : IsPointer l) (pos : Nat) :
    Labels.Tracks q start
      { it with used := if it.afterPtr then it.used else it.pos + 2, afterPtr := true, pos } := by
  refine ⟨fun _ => ?_, fun before => nomatch before⟩
  by_cases after : it.afterPtr = true
  · show NameEnd q start (if it.afterPtr then it.used else it.pos + 2)
    rw [if_pos after]
    exact tracks.1 after
  · show NameEnd q start (if it.afterPtr then it.used else it.pos + 2)
    rw [if_neg after]
    exact tracks.2 (Bool.eq_false_iff.mpr after) _ (.pointer first isPointer)

/-- What an iterator on a name gives next. -/
theorem labelsNext_eq {start : Nat} (name : Name q it.pos labels) (tracks : it.Tracks q start) :
    (labels = [] → ∃ last, Returns (fun fuel => labelsNext q fuel it) (none, last) ∧
      NameEnd q start last.used) ∧
    (∀ l rest, labels = l :: rest → ∃ next, Returns (fun fuel => labelsNext q fuel it) (some l, next) ∧
      Name q next.pos rest ∧ next.Tracks q start) := by
  generalize position : it.pos = off at name
  induction name generalizing it with
  | root zero =>
    rw [← position] at zero
    refine ⟨fun _ => ?_, fun l rest same => nomatch same⟩
    refine ⟨_, .last (labelsNext_root zero), ?_⟩
    show NameEnd q start (if it.afterPtr then it.used else it.pos + 1)
    by_cases after : it.afterPtr = true
    · rw [if_pos after]
      exact tracks.1 after
    · rw [if_neg after]
      exact tracks.2 (Bool.eq_false_iff.mpr after) _ (.root zero)
  | pointer first isPointer second _ ih =>
    rw [← position] at first second
    obtain ⟨none, some⟩ := ih (tracks.pointer first isPointer _) rfl
    refine ⟨fun empty => ?_, fun l rest same => ?_⟩
    · obtain ⟨last, returns, stops⟩ := none empty
      exact ⟨last, returns.succ (labelsNext_pointer first isPointer second), stops⟩
    · obtain ⟨next, returns, named, nextTracks⟩ := some l rest same
      exact ⟨next, returns.succ (labelsNext_pointer first isPointer second), named, nextTracks⟩
  | label first notRoot notPointer rest _ =>
    rw [← position] at first
    refine ⟨fun empty => (nomatch empty), fun l others same => ?_⟩
    obtain ⟨rfl, rfl⟩ := cons.inj same
    rw [← position] at rest ⊢
    refine ⟨_, .last (labelsNext_label first notRoot notPointer),
      rest, tracks.1, fun before stop stops => ?_⟩
    exact tracks.2 before stop (.label first notRoot notPointer stops)

section Loops

variable {State : Type} {body : State → Lstr → Except ReadFault State}

theorem forLabels_succ (it : Labels) (state : State) (fuel : Nat) :
    forLabels q body (fuel + 1) it state = labelsNext q fuel it >>= fun result => match result with
      | (none, it) => .ok (state, it)
      | (some l, it) => body state l >>= fun state => forLabels q body fuel it state := rfl

/-- A loop over a name is a loop over its labels. -/
theorem forLabels_eq {start : Nat} {it : Labels} {labels : List Lstr} {state final : State}
    (name : Name q it.pos labels) (tracks : it.Tracks q start)
    (folded : labels.foldlM body state = .ok final) :
    ∃ last, Returns (fun fuel => forLabels q body fuel it state) (final, last) ∧
      NameEnd q start last.used := by
  induction labels generalizing it state with
  | nil =>
    obtain ⟨last, returns, stops⟩ := (labelsNext_eq name tracks).1 rfl
    obtain rfl := Except.ok.inj folded
    refine ⟨last, ?_, stops⟩
    refine .succ (forLabels_succ it state) ?_
    exact returns.bind .pure
  | cons l rest ih =>
    obtain ⟨next, returns, named, nextTracks⟩ := (labelsNext_eq name tracks).2 l rest rfl
    obtain ⟨middle, first, folded⟩ := ok_bind folded
    obtain ⟨last, others, stops⟩ := ih named nextTracks folded
    refine ⟨last, ?_, stops⟩
    refine .succ (forLabels_succ it state) ?_
    refine returns.bind ?_
    dsimp only
    rw [first]
    exact others

end Loops

/-! ### Reading in reverse -/

theorem foldlM_count (labels : List Lstr) (count : Nat) :
    labels.foldlM (fun total _ => (.ok (total + 1) : Except ReadFault Nat)) count =
      .ok (count + labels.length) := by
  induction labels generalizing count with
  | nil => rfl
  | cons l rest ih =>
    rw [foldlM_cons]
    refine (ih (count + 1)).trans ?_
    rw [length_cons]
    exact congrArg Except.ok (by omega)

/-- The array when the first labels were seen: those that are kept are in reverse order. -/
def Stored (labels lstrs : List Lstr) (seen : Nat) (stored : List Lstr) : Prop :=
  stored.length = lstrs.length ∧ ∀ index, index < lstrs.length →
    stored[index]? = if labels.length - seen ≤ index then
        (if index < labels.length then labels.reverse[index]? else lstrs[index]?)
      else lstrs[index]?

theorem Stored.init (labels lstrs : List Lstr) : Stored labels lstrs 0 lstrs := by
  refine ⟨rfl, fun index inside => ?_⟩
  rw [Nat.sub_zero]
  by_cases before : labels.length ≤ index
  · rw [if_pos before, if_neg (Nat.not_lt_of_le before)]
  · rw [if_neg before]

variable {labels lstrs stored : List Lstr}

theorem Stored.keep {seen : Nat} {l : Lstr} (done : Stored labels lstrs seen stored)
    (next : labels[seen]? = some l) :
    ∃ after, keepLabel lstrs.length
        (if lstrs.length < labels.length then labels.length - lstrs.length else 0)
        (if labels.length < lstrs.length then lstrs.length - labels.length else 0) (seen, stored) l =
          .ok (seen + 1, after) ∧ Stored labels lstrs (seen + 1) after := by
  obtain ⟨same, each⟩ := done
  have seenLt : seen < labels.length := (List.getElem?_eq_some_iff.mp next).1
  unfold keepLabel
  dsimp only
  by_cases skipped : seen < if lstrs.length < labels.length then labels.length - lstrs.length else 0
  · rw [if_pos skipped]
    refine ⟨stored, rfl, same, fun index inside => ?_⟩
    rw [each index inside, if_neg (by split at skipped <;> omega),
      if_neg (by split at skipped <;> omega)]
  rw [if_neg skipped]
  have place : ((lstrs.length + (if lstrs.length < labels.length then
      labels.length - lstrs.length else 0) : Nat) : Int) - 1 - seen -
      ((if labels.length < lstrs.length then lstrs.length - labels.length else 0 : Nat) : Int) =
      ((labels.length - 1 - seen : Nat) : Int) := by
    split <;> split <;> omega
  have inside : labels.length - 1 - seen < stored.length := by
    split at skipped <;> omega
  rw [place]
  unfold store
  rw [if_pos ⟨Int.natCast_nonneg _, by exact_mod_cast inside⟩, Int.toNat_natCast]
  refine ⟨_, rfl, (length_set ..).trans same, fun index indexLt => ?_⟩
  rw [getElem?_set]
  by_cases this : labels.length - 1 - seen = index
  · rw [if_pos this, if_pos inside, if_pos (by omega), if_pos (by omega),
      getElem?_reverse (by omega), ← this, show labels.length - 1 - (labels.length - 1 - seen) =
        seen by omega, next]
  · rw [if_neg this, each index indexLt]
    by_cases before : labels.length - seen ≤ index
    · rw [if_pos before, if_pos (show labels.length - (seen + 1) ≤ index by omega)]
    · rw [if_neg before, if_neg (by omega)]

theorem Stored.fold {seen : Nat} (done : Stored labels lstrs seen stored) :
    ∃ after, (labels.drop seen).foldlM (keepLabel lstrs.length
        (if lstrs.length < labels.length then labels.length - lstrs.length else 0)
        (if labels.length < lstrs.length then lstrs.length - labels.length else 0)) (seen, stored) =
          .ok (max seen labels.length, after) ∧
      Stored labels lstrs (max seen labels.length) after := by
  induction left : labels.length - seen generalizing seen stored with
  | zero =>
    rw [drop_eq_nil_of_le (by omega), show max seen labels.length = seen by omega]
    exact ⟨stored, rfl, done⟩
  | succ left ih =>
    have seenLt : seen < labels.length := by omega
    obtain ⟨middle, kept, more⟩ := done.keep (getElem?_eq_getElem seenLt)
    obtain ⟨after, folded, all⟩ := ih more (by omega)
    rw [show max (seen + 1) labels.length = max seen labels.length by omega] at folded all
    refine ⟨after, ?_, all⟩
    rw [drop_eq_getElem_cons seenLt, foldlM_cons, kept]
    exact folded

theorem Stored.eq (done : Stored labels lstrs labels.length stored) :
    stored = labels.reverse.take lstrs.length ++ lstrs.drop labels.length := by
  obtain ⟨same, each⟩ := done
  refine ext_getElem? fun index => ?_
  rw [getElem?_append, length_take, length_reverse, getElem?_drop, getElem?_take]
  by_cases inside : index < lstrs.length
  · rw [each index inside, Nat.sub_self, if_pos (Nat.zero_le index)]
    by_cases before : index < labels.length
    · rw [if_pos before, if_pos (by omega), if_pos inside]
    · rw [if_neg before, if_neg (by omega), show labels.length + (index - min lstrs.length
        labels.length) = index by omega]
  · rw [if_neg (by omega), getElem?_eq_none (by omega), getElem?_eq_none (by omega)]

theorem labelsReadReverse_eq {start : Nat} (name : Name q start labels) (lstrs : List Lstr) :
    Returns (fun fuel => labelsReadReverse q fuel start lstrs)
      (labels.length, labels.reverse.take lstrs.length ++ lstrs.drop labels.length) := by
  obtain ⟨counted, first, -⟩ := forLabels_eq name (tracks_start start) (foldlM_count labels 0)
  obtain ⟨stored, folded, done⟩ := (Stored.init labels lstrs).fold
  rw [Nat.zero_max] at folded done
  obtain ⟨kept, second, -⟩ := forLabels_eq name (tracks_start start) folded
  rw [Nat.zero_add] at first
  rw [← done.eq]
  exact first.bind (second.bind .pure)

end Dns

end Splintermail
