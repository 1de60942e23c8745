/-
This file proves that the first pass over a query accepts the packets that have a layout:
a header, as many names as it says and one question after them, and three sections of as
many records as it says, one right after another and all of them inside of the packet.

The first pass returns on every packet. A name can lead it back and forth, but then it reads
a label at least every other time, and the length of the name runs out.
-/

import Splintermail.Dns.Names

namespace Splintermail

namespace Dns

variable {q : Packet}

/-! ### Names -/

/-- The loop of `parse_name` after a pointer. -/
def ParseName.follow (st : ParseName) (l l2 : UInt8) : ParseName :=
  { st with
    wasPtr := true
    afterPtr := true
    preptrUsed := if st.afterPtr then st.preptrUsed else st.used + 1 + 1
    used := pointee l l2 }

/-- The loop of `parse_name` after a label. -/
def ParseName.advance (st : ParseName) (l : UInt8) : ParseName :=
  { st with
    wasPtr := false
    used := st.used + 1 + l.toNat
    namelen := st.namelen + l.toNat + 1 }

/-- What the loop returns at a name that ends at an offset. -/
def ParseName.result (st : ParseName) (stop : Nat) : Nat :=
  if st.afterPtr then st.preptrUsed else stop

section Turns

variable {st : ParseName} {l l2 : UInt8}

section

variable (first : q.bytes[st.used]? = some l)

include first

theorem parseNameFrom_pointer (isPointer : IsPointer l) (fresh : st.wasPtr = false)
    (second : q.bytes[st.used + 1]? = some l2) (fuel : Nat) :
    parseNameFrom q (fuel + 1) st = parseNameFrom q fuel (st.follow l l2) := by
  have inside := lt_len second
  rw [parseNameFrom, if_neg (by omega), read_eq first]
  refine (if_pos isPointer).trans ((if_neg ?_).trans ((if_neg (by omega)).trans ?_))
  · rw [fresh]
    exact Bool.false_ne_true
  · rw [read_eq second]
    rfl

theorem parseNameFrom_label (notRoot : l ≠ 0) (notPointer : ¬IsPointer l) (short : l.toNat ≤ 63)
    (inside : st.used + 1 + l.toNat ≤ q.len) (room : st.namelen + l.toNat + 1 ≤ 255) (fuel : Nat) :
    parseNameFrom q (fuel + 1) st = parseNameFrom q fuel (st.advance l) := by
  rw [parseNameFrom, if_neg (by omega), read_eq first]
  refine (if_neg notPointer).trans ((if_neg (by omega)).trans ((if_neg (by omega)).trans ?_))
  exact (if_neg (by omega)).trans (if_neg notRoot)

theorem parseNameFrom_root (root : l = 0) (room : st.namelen + 1 ≤ 255) (fuel : Nat) :
    parseNameFrom q (fuel + 1) st = .ok (st.result (st.used + 1)) := by
  have inside := lt_len first
  have none : l.toNat = 0 := congrArg UInt8.toNat root
  have notPointer : ¬IsPointer l := root ▸ not_isPointer_zero
  rw [parseNameFrom, if_neg (by omega), read_eq first]
  refine (if_neg notPointer).trans ((if_neg (by omega)).trans ((if_neg (by omega)).trans ?_))
  refine (if_neg (by omega)).trans ((if_pos root).trans ?_)
  rw [none]
  rfl

end

/-- What one turn of the loop can do. -/
theorem parseNameFrom_turn (q : Packet) (st : ParseName) :
    (∃ n, isBadParse n = true ∧ ∀ fuel, parseNameFrom q (fuel + 1) st = .ok n) ∨
    (q.bytes[st.used]? = some 0 ∧ st.namelen + 1 ≤ 255 ∧
      ∀ fuel, parseNameFrom q (fuel + 1) st = .ok (st.result (st.used + 1))) ∨
    (∃ l l2, q.bytes[st.used]? = some l ∧ IsPointer l ∧ st.wasPtr = false ∧
      q.bytes[st.used + 1]? = some l2 ∧
      ∀ fuel, parseNameFrom q (fuel + 1) st = parseNameFrom q fuel (st.follow l l2)) ∨
    (∃ l, q.bytes[st.used]? = some l ∧ l ≠ 0 ∧ ¬IsPointer l ∧ l.toNat ≤ 63 ∧
      st.namelen + l.toNat + 1 ≤ 255 ∧
      ∀ fuel, parseNameFrom q (fuel + 1) st = parseNameFrom q fuel (st.advance l)) := by
  by_cases inside : q.len < st.used + 1
  · exact .inl ⟨bpLabelLenByte, by decide, fun fuel => by rw [parseNameFrom, if_pos inside]⟩
  obtain ⟨l, first⟩ := exists_byte (Nat.lt_of_succ_le (Nat.le_of_not_lt inside))
  by_cases isPointer : IsPointer l
  · by_cases fresh : st.wasPtr = true
    · refine .inl ⟨bpDoublePointer, by decide, fun fuel => ?_⟩
      rw [parseNameFrom, if_neg inside, read_eq first]
      exact (if_pos isPointer).trans (if_pos fresh)
    by_cases more : q.len < st.used + 1 + 1
    · refine .inl ⟨bpPtrLenByte, by decide, fun fuel => ?_⟩
      rw [parseNameFrom, if_neg inside, read_eq first]
      exact (if_pos isPointer).trans ((if_neg fresh).trans (if_pos more))
    obtain ⟨l2, second⟩ := exists_byte (Nat.lt_of_succ_le (Nat.le_of_not_lt more))
    exact .inr (.inr (.inl ⟨l, l2, first, isPointer, Bool.eq_false_iff.mpr fresh, second,
      parseNameFrom_pointer first isPointer (Bool.eq_false_iff.mpr fresh) second⟩))
  by_cases long : 63 < l.toNat
  · refine .inl ⟨bpLongLabel, by decide, fun fuel => ?_⟩
    rw [parseNameFrom, if_neg inside, read_eq first]
    exact (if_neg isPointer).trans (if_pos long)
  by_cases past : q.len < st.used + 1 + l.toNat
  · refine .inl ⟨bpLabelOverrun, by decide, fun fuel => ?_⟩
    rw [parseNameFrom, if_neg inside, read_eq first]
    exact (if_neg isPointer).trans ((if_neg long).trans (if_pos past))
  by_cases full : 255 < st.namelen + l.toNat + 1
  · refine .inl ⟨bpLongName, by decide, fun fuel => ?_⟩
    rw [parseNameFrom, if_neg inside, read_eq first]
    exact (if_neg isPointer).trans ((if_neg long).trans ((if_neg past).trans (if_pos full)))
  by_cases root : l = 0
  · subst root
    have room : st.namelen + 1 ≤ 255 := Nat.le_of_not_lt full
    exact .inr (.inl ⟨first, room, parseNameFrom_root first rfl room⟩)
  · exact .inr (.inr (.inr ⟨l, first, root, isPointer, Nat.le_of_not_lt long,
      Nat.le_of_not_lt full, parseNameFrom_label first root isPointer (Nat.le_of_not_lt long)
        (Nat.le_of_not_lt past) (Nat.le_of_not_lt full)⟩))

/-- How many turns the loop can still take. -/
def ParseName.left (st : ParseName) : Nat :=
  2 * (255 - st.namelen) + if st.wasPtr then 0 else 1

theorem left_follow (fresh : st.wasPtr = false) : (st.follow l l2).left + 1 = st.left := by
  unfold ParseName.left ParseName.follow
  rw [fresh]
  rfl

theorem left_advance (room : st.namelen + l.toNat + 1 ≤ 255) :
    (st.advance l).left + 1 ≤ st.left := by
  unfold ParseName.left ParseName.advance
  dsimp only
  rw [if_neg Bool.false_ne_true]
  split <;> omega

theorem parseNameFrom_total (q : Packet) (st : ParseName) :
    ∃ n, ∀ fuel, st.left < fuel → parseNameFrom q fuel st = .ok n := by
  generalize bounded : st.left = turns
  induction turns using Nat.strong_induction_on generalizing st with
  | _ turns ih =>
    -- a turn costs one unit of fuel, and leaves less turns
    have later : ∀ next : ParseName, next.left + 1 ≤ turns →
        (∀ fuel, parseNameFrom q (fuel + 1) st = parseNameFrom q fuel next) →
        ∃ n, ∀ fuel, turns < fuel → parseNameFrom q fuel st = .ok n := by
      intro next less same
      obtain ⟨n, result⟩ := ih next.left less next rfl
      refine ⟨n, fun fuel enough => ?_⟩
      obtain ⟨rest, rfl⟩ := Nat.exists_eq_add_of_le' (Nat.one_le_of_lt enough)
      rw [same]
      exact result rest (by omega)
    have last : ∀ n, (∀ fuel, parseNameFrom q (fuel + 1) st = .ok n) →
        ∃ n, ∀ fuel, turns < fuel → parseNameFrom q fuel st = .ok n := by
      intro n same
      refine ⟨n, fun fuel enough => ?_⟩
      obtain ⟨rest, rfl⟩ := Nat.exists_eq_add_of_le' (Nat.one_le_of_lt enough)
      exact same rest
    rcases parseNameFrom_turn q st with ⟨n, _, same⟩ | ⟨_, _, same⟩ |
      ⟨l, l2, _, _, fresh, _, same⟩ | ⟨l, _, _, _, _, room, same⟩
    · exact last n same
    · exact last _ same
    · exact later _ (bounded ▸ Nat.le_of_eq (left_follow fresh)) same
    · exact later _ (bounded ▸ left_advance room) same

end Turns

theorem parseNameFrom_persists (st : ParseName) : Persists fun fuel => parseNameFrom q fuel st := by
  intro fuel n result
  induction fuel generalizing st with
  | zero => exact nomatch result
  | succ fuel ih =>
    dsimp only at result ih
    rcases parseNameFrom_turn q st with ⟨_, _, same⟩ | ⟨_, _, same⟩ |
      ⟨l, l2, _, _, _, _, same⟩ | ⟨l, _, _, _, _, _, same⟩
    · rw [same] at result
      exact .last fun fuel => (same fuel).trans result
    · rw [same] at result
      exact .last fun fuel => (same fuel).trans result
    · rw [same] at result
      exact (ih _ result).succ same
    · rw [same] at result
      exact (ih _ result).succ same

theorem parseName_persists (off : Nat) : Persists fun fuel => parseName q fuel off :=
  .ite (.const _) (parseNameFrom_persists _)

theorem wireLen_cons (l : Lstr) (labels : List Lstr) :
    wireLen (l :: labels) = l.len + 1 + wireLen labels := by
  unfold wireLen
  rw [List.map_cons, List.sum_cons]
  omega

theorem parseNameFrom_ok {fuel n : Nat} {st : ParseName}
    (result : parseNameFrom q fuel st = .ok n) :
    isBadParse n = true ∨ ∃ labels stop, StrictName q st.wasPtr st.used labels ∧
      NameEnd q st.used stop ∧ st.namelen + wireLen labels ≤ 255 ∧ n = st.result stop := by
  induction fuel generalizing st with
  | zero => exact nomatch result
  | succ fuel ih =>
    rcases parseNameFrom_turn q st with ⟨other, bad, same⟩ | ⟨zero, room, same⟩ |
      ⟨l, l2, first, isPointer, fresh, second, same⟩ |
      ⟨l, first, notRoot, notPointer, short, room, same⟩
    · rw [same] at result
      cases result
      exact .inl bad
    · rw [same] at result
      cases result
      exact .inr ⟨[], _, .root zero, .root zero, room, rfl⟩
    · rw [same] at result
      rcases ih result with bad | ⟨labels, stop, strict, _, room, rfl⟩
      · exact .inl bad
      · refine .inr ⟨labels, st.used + 2, ?_, .pointer first isPointer, room, ?_⟩
        · rw [fresh]
          exact .pointer first isPointer second strict
        · rfl
    · rw [same] at result
      rcases ih result with bad | ⟨labels, stop, strict, stops, total, rfl⟩
      · exact .inl bad
      · refine .inr ⟨_, stop, .label first notRoot notPointer short strict,
          .label first notRoot notPointer stops, ?_, rfl⟩
        rw [wireLen_cons]
        show st.namelen + (l.toNat + 1 + wireLen labels) ≤ 255
        have total : st.namelen + l.toNat + 1 + wireLen labels ≤ 255 := total
        omega

variable {off stop : Nat}

theorem parseNameFrom_eq {wasPtr : Bool} {labels : List Lstr}
    (strict : StrictName q wasPtr off labels) {st : ParseName} (flag : st.wasPtr = wasPtr)
    (position : st.used = off) (stops : NameEnd q off stop)
    (room : st.namelen + wireLen labels ≤ 255) :
    Returns (fun fuel => parseNameFrom q fuel st) (st.result stop) := by
  induction strict generalizing st stop with
  | root zero =>
    obtain rfl := stops.unique (.root zero)
    rw [← position] at zero ⊢
    exact .last (parseNameFrom_root zero rfl room)
  | pointer first isPointer second strict ih =>
    obtain rfl := stops.unique (.pointer first isPointer)
    obtain ⟨inner, innerStops, _⟩ := strict.name.stops
    rw [← position] at first second ⊢
    have returns := @ih _ (st.follow _ _) rfl rfl innerStops room
    exact returns.succ (parseNameFrom_pointer first isPointer flag second)
  | @label _ _ l labels first notRoot notPointer short strict ih =>
    obtain ⟨inner, innerStops, _⟩ := strict.name.stops
    obtain rfl := stops.unique (.label first notRoot notPointer innerStops)
    have inside := strict.name.lt_len
    rw [← position] at first inside
    rw [wireLen_cons] at room
    have total : st.namelen + (l.toNat + 1 + wireLen labels) ≤ 255 := room
    have rest : (st.advance l).namelen + wireLen labels ≤ 255 := by
      show st.namelen + l.toNat + 1 + wireLen labels ≤ 255
      omega
    have returns := @ih _ (st.advance l) rfl (by rw [← position]; rfl) innerStops rest
    exact returns.succ (parseNameFrom_label first notRoot notPointer short (Nat.le_of_lt inside)
      (by omega))

theorem parseName_eq {labels : List Lstr} (valid : ValidName q off labels stop) :
    Returns (fun fuel => parseName q fuel off) stop := by
  have good := not_isBadParse (Nat.le_of_lt valid.name.lt_len)
  unfold parseName
  simp only [good, Bool.false_eq_true, if_false]
  refine parseNameFrom_eq valid.strict rfl rfl valid.stops ?_
  rw [Nat.zero_add]
  exact valid.short

theorem parseName_ok {fuel n : Nat} (result : parseName q fuel off = .ok n)
    (good : isBadParse n = false) : ∃ labels, ValidName q off labels n := by
  unfold parseName at result
  by_cases bad : isBadParse off = true
  · rw [if_pos bad] at result
    cases result
    exact absurd bad (Bool.eq_false_iff.mp good)
  rw [if_neg bad] at result
  rcases parseNameFrom_ok result with bad | ⟨labels, stop, strict, stops, room, rfl⟩
  · exact absurd bad (Bool.eq_false_iff.mp good)
  · refine ⟨labels, strict, stops, ?_⟩
    rwa [Nat.zero_add] at room

theorem parseName_total (q : Packet) (off : Nat) :
    ∃ n, Returns (fun fuel => parseName q fuel off) n := by
  unfold parseName
  by_cases bad : isBadParse off = true
  · simp only [bad, if_true]
    exact ⟨off, .pure⟩
  · simp only [bad]
    obtain ⟨n, result⟩ := parseNameFrom_total q { used := off }
    exact ⟨n, _, fun fuel enough => result fuel enough⟩

/-- The names of the questions, one after another. -/
inductive Names (q : Packet) : Nat → List (List Lstr) → Nat → Prop
  | nil {off : Nat} : Names q off [] off
  | cons {off next stop : Nat} {labels : List Lstr} {names : List (List Lstr)}
      (valid : ValidName q off labels next) (rest : Names q next names stop) :
      Names q off (labels :: names) stop

theorem Names.stop_le {names : List (List Lstr)} (named : Names q off names stop)
    (inside : off ≤ q.len) : stop ≤ q.len := by
  induction named with
  | nil => exact inside
  | cons valid _ ih => exact ih valid.stop_le

theorem parseNames_eq {names : List (List Lstr)} (named : Names q off names stop) :
    Returns (fun fuel => parseNames q fuel names.length off) stop := by
  induction named with
  | nil => exact .pure
  | cons valid _ ih =>
    refine (parseName_eq valid).bind ?_
    simp only [not_isBadParse valid.stop_le, Bool.false_eq_true, if_false]
    exact ih

theorem parseNames_ok {fuel count n : Nat} (result : parseNames q fuel count off = .ok n)
    (good : isBadParse n = false) : ∃ names, names.length = count ∧ Names q off names n := by
  induction count generalizing off with
  | zero =>
    cases result
    exact ⟨[], rfl, .nil⟩
  | succ count ih =>
    obtain ⟨next, parsed, result⟩ := ok_bind result
    by_cases bad : isBadParse next = true
    · rw [if_pos bad] at result
      cases result
      exact absurd bad (Bool.eq_false_iff.mp good)
    rw [if_neg bad] at result
    obtain ⟨labels, valid⟩ := parseName_ok parsed (Bool.eq_false_iff.mpr bad)
    obtain ⟨names, same, named⟩ := ih result
    exact ⟨labels :: names, congrArg (· + 1) same, .cons valid named⟩

theorem parseNames_persists (count off : Nat) : Persists fun fuel => parseNames q fuel count off := by
  induction count generalizing off with
  | zero => exact .const _
  | succ count ih =>
    exact (parseName_persists off).bind fun used => .ite (.const _) (ih used)

theorem parseNames_total (q : Packet) (count off : Nat) :
    ∃ n, Returns (fun fuel => parseNames q fuel count off) n := by
  induction count generalizing off with
  | zero => exact ⟨off, .pure⟩
  | succ count ih =>
    obtain ⟨next, parsed⟩ := parseName_total q off
    by_cases bad : isBadParse next = true
    · refine ⟨next, parsed.bind ?_⟩
      simp only [bad, if_true]
      exact .pure
    · obtain ⟨n, rest⟩ := ih next
      refine ⟨n, parsed.bind ?_⟩
      simp only [bad]
      exact rest

/-! ### Records -/

theorem read16_eq (inside : off + 2 ≤ q.len) : ∃ n, q.read16 off = .ok n := by
  obtain ⟨high, first⟩ := @exists_byte q off (by omega)
  obtain ⟨low, second⟩ := @exists_byte q (off + 1) (by omega)
  unfold Packet.read16
  rw [read_eq first, read_eq second]
  exact ⟨_, rfl⟩

theorem read16_ok {n : Nat} (result : q.read16 off = .ok n) : off + 2 ≤ q.len := by
  obtain ⟨_, _, result⟩ := ok_bind result
  obtain ⟨_, second, _⟩ := ok_bind result
  exact lt_len (read_ok second)

theorem readRrHdr_eq {nameoff used : Nat} (inside : used + 10 ≤ q.len) :
    ∃ rr, readRrHdr q nameoff used = .ok rr := by
  obtain ⟨rrtype, first⟩ := @read16_eq q used (by omega)
  obtain ⟨rrclass, second⟩ := @read16_eq q (used + 2) (by omega)
  obtain ⟨high, third⟩ := @read16_eq q (used + 4) (by omega)
  obtain ⟨low, fourth⟩ := @read16_eq q (used + 4 + 2) (by omega)
  obtain ⟨rdlen, fifth⟩ := @read16_eq q (used + 8) (by omega)
  unfold readRrHdr Packet.read32
  rw [first, second, third, fourth, fifth]
  exact ⟨_, rfl⟩

theorem readRrHdr_ok {nameoff used : Nat} {rr : Rr} (result : readRrHdr q nameoff used = .ok rr) :
    used + 10 ≤ q.len ∧ rr.nameoff = nameoff ∧ rr.rdoff = used + 10 := by
  obtain ⟨_, _, result⟩ := ok_bind result
  obtain ⟨_, _, result⟩ := ok_bind result
  obtain ⟨_, _, result⟩ := ok_bind result
  obtain ⟨_, last, result⟩ := ok_bind result
  cases result
  exact ⟨read16_ok last, rfl, rfl⟩

/-- Records one after another, as the first pass steps over them. -/
inductive Records (q : Packet) : Nat → List Rr → Nat → Prop
  | nil {off : Nat} : Records q off [] off
  | cons {off used stop : Nat} {labels : List Lstr} {rr : Rr} {rrs : List Rr}
      (valid : ValidName q off labels used) (header : readRrHdr q off used = .ok rr)
      (inside : rr.rdoff + rr.rdlen ≤ q.len) (rest : Records q (rr.rdoff + rr.rdlen) rrs stop) :
      Records q off (rr :: rrs) stop

theorem Records.stop_le {rrs : List Rr} (records : Records q off rrs stop) (inside : off ≤ q.len) :
    stop ≤ q.len := by
  induction records with
  | nil => exact inside
  | cons _ _ room _ ih => exact ih room

theorem parseRrs_eq {rrs : List Rr} (records : Records q off rrs stop) :
    Returns (fun fuel => parseRrs q fuel rrs.length off) stop := by
  induction records with
  | nil => exact .pure
  | cons valid header inside _ ih =>
    obtain ⟨room, -, rdoff⟩ := readRrHdr_ok header
    rw [rdoff] at inside ih
    refine (parseName_eq valid).bind ?_
    simp only [not_isBadParse valid.stop_le, Bool.false_eq_true, Nat.not_lt_of_le room, header]
    refine Returns.bind .pure ?_
    simp only [Nat.not_lt_of_le inside]
    exact ih

theorem parseRrs_ok {fuel count n : Nat} (result : parseRrs q fuel count off = .ok n)
    (good : isBadParse n = false) : ∃ rrs, rrs.length = count ∧ Records q off rrs n := by
  induction count generalizing off with
  | zero =>
    cases result
    exact ⟨[], rfl, .nil⟩
  | succ count ih =>
    obtain ⟨used, parsed, result⟩ := ok_bind result
    by_cases bad : isBadParse used = true
    · rw [if_pos bad] at result
      cases result
      exact absurd bad (Bool.eq_false_iff.mp good)
    rw [if_neg bad] at result
    by_cases past : q.len < used + 10
    · rw [if_pos past] at result
      cases result
      exact nomatch good
    rw [if_neg past] at result
    obtain ⟨rr, header, result⟩ := ok_bind result
    obtain ⟨_, _, rdoff⟩ := readRrHdr_ok header
    by_cases long : q.len < used + 10 + rr.rdlen
    · rw [if_pos long] at result
      cases result
      exact nomatch good
    rw [if_neg long] at result
    obtain ⟨labels, valid⟩ := parseName_ok parsed (Bool.eq_false_iff.mpr bad)
    obtain ⟨rrs, same, records⟩ := ih result
    rw [← rdoff] at records long
    exact ⟨rr :: rrs, congrArg (· + 1) same, .cons valid header (Nat.le_of_not_lt long) records⟩

theorem parseRrs_persists (count off : Nat) : Persists fun fuel => parseRrs q fuel count off := by
  induction count generalizing off with
  | zero => exact .const _
  | succ count ih =>
    exact (parseName_persists off).bind fun used => .ite (.const _) <| .ite (.const _) <|
      (Persists.const _).bind fun rr => .ite (.const _) (ih _)

theorem parseRrs_total (q : Packet) (count off : Nat) :
    ∃ n, Returns (fun fuel => parseRrs q fuel count off) n := by
  induction count generalizing off with
  | zero => exact ⟨off, .pure⟩
  | succ count ih =>
    obtain ⟨used, parsed⟩ := parseName_total q off
    by_cases bad : isBadParse used = true
    · refine ⟨used, parsed.bind ?_⟩
      simp only [bad, if_true]
      exact .pure
    by_cases past : q.len < used + 10
    · refine ⟨bpRrHdrOverrun, parsed.bind ?_⟩
      simp only [bad, past, if_true]
      exact .pure
    obtain ⟨rr, header⟩ := @readRrHdr_eq q off used (Nat.le_of_not_lt past)
    by_cases long : q.len < used + 10 + rr.rdlen
    · refine ⟨bpRrDataOverrun, parsed.bind ?_⟩
      simp only [bad, past, header]
      refine Returns.bind .pure ?_
      simp only [long]
      exact .pure
    · obtain ⟨n, rest⟩ := ih (used + 10 + rr.rdlen)
      refine ⟨n, parsed.bind ?_⟩
      simp only [bad, past, header]
      refine Returns.bind .pure ?_
      simp only [long]
      exact rest

end Dns

end Splintermail
