/-
This file proves what the iterators over records and options see of a packet that the first
pass has accepted.

The iterator over records goes on right after the header of a record. It does not skip the
data of the record, as the first pass did, so it yields the records of a section only if
none of them but the last one has data. The record of EDNS is searched with this iterator.
-/

import Splintermail.Dns.Sections

namespace Splintermail

open List

namespace Dns

variable {q : Packet}

/-- Records, each of which starts right after the header of the one before it. -/
inductive Headers (q : Packet) : Nat → List Rr → Nat → Prop
  | nil {off : Nat} : Headers q off [] off
  | cons {off used stop : Nat} {rr : Rr} {rrs : List Rr} (stops : NameEnd q off used)
      (header : readRrHdr q off used = .ok rr) (rest : Headers q rr.rdoff rrs stop) :
      Headers q off (rr :: rrs) stop

theorem Headers.unique {off stop other : Nat} {rrs others : List Rr}
    (headers : Headers q off rrs stop) (second : Headers q off others other)
    (same : rrs.length = others.length) : rrs = others ∧ stop = other := by
  induction headers generalizing others other with
  | nil =>
    cases second with
    | nil => exact ⟨rfl, rfl⟩
    | cons => exact nomatch same
  | cons stops header _ ih =>
    cases second with
    | nil => exact nomatch same
    | cons stops' header' rest =>
      obtain rfl := stops.unique stops'
      cases header.symm.trans header'
      obtain ⟨rfl, rfl⟩ := ih rest (Nat.succ.inj same)
      exact ⟨rfl, rfl⟩

theorem Records.headers_iff {off stop : Nat} {rrs : List Rr} (records : Records q off rrs stop) :
    (∃ last, Headers q off rrs last) ↔ ∀ rr ∈ rrs.dropLast, rr.rdlen = 0 := by
  induction records with
  | nil => exact ⟨fun _ _ mem => absurd mem not_mem_nil, fun _ => ⟨_, .nil⟩⟩
  | @cons off used stop labels rr rrs valid header _ rest ih =>
    cases rest with
    | nil =>
      exact ⟨fun _ _ mem => absurd mem not_mem_nil, fun _ => ⟨_, .cons valid.stops header .nil⟩⟩
    | @cons _ _ _ _ next rrs nextValid nextHeader nextInside others =>
      rw [dropLast_cons_cons]
      constructor
      · rintro ⟨last, headers⟩ some mem
        cases headers with
        | cons stops _ tail =>
          -- the next record starts where the data ends, and right after the header
          have bare : rr.rdlen = 0 := by
            cases tail with
            | cons _ again _ =>
              have first := (readRrHdr_ok nextHeader).2.1
              have second := (readRrHdr_ok again).2.1
              omega
          rcases mem_cons.mp mem with rfl | mem
          · exact bare
          · rw [bare, Nat.add_zero] at ih
            exact ih.mp ⟨last, tail⟩ some mem
      · intro bare
        obtain ⟨last, tail⟩ := ih.mpr fun some mem =>
          bare some (.tail _ mem)
        rw [bare rr mem_cons_self, Nat.add_zero] at tail
        exact ⟨last, .cons valid.stops header tail⟩

/-! ### The iterator over records -/

variable {it : Rrs} {used : Nat} {rr : Rr}

theorem rrsNext_eq (more : it.seen ≠ it.count) (stops : NameEnd q it.pos used)
    (header : readRrHdr q it.pos used = .ok rr) :
    Returns (fun fuel => rrsNext q fuel it)
      (some rr, { it with pos := rr.rdoff, seen := it.seen + 1 }) := by
  unfold rrsNext
  simp only [more]
  refine (skipName_eq stops).bind ?_
  rw [header, (readRrHdr_ok header).2.2]
  exact .pure

theorem rrsNext_ok {fuel : Nat} {next : Rrs} {got : Option Rr}
    (result : rrsNext q fuel it = .ok (got, next)) :
    (got = none ∧ it.seen = it.count) ∨ ∃ rr used, got = some rr ∧ it.seen ≠ it.count ∧
      NameEnd q it.pos used ∧ readRrHdr q it.pos used = .ok rr ∧
      next = { it with pos := rr.rdoff, seen := it.seen + 1 } := by
  unfold rrsNext at result
  by_cases done : it.seen = it.count
  · rw [if_pos done] at result
    obtain ⟨rfl, -⟩ := Prod.mk.inj (Except.ok.inj result)
    exact .inl ⟨rfl, done⟩
  rw [if_neg done] at result
  obtain ⟨used, skipped, result⟩ := ok_bind result
  obtain ⟨rr, header, result⟩ := ok_bind result
  cases result
  refine .inr ⟨rr, used, rfl, done, skipName_ok skipped, header, ?_⟩
  rw [(readRrHdr_ok header).2.2]

section Loops

variable {State : Type} {body : State → Rr → Except ReadFault State}

theorem forRrs_succ (it : Rrs) (state : State) (fuel : Nat) :
    forRrs q body (fuel + 1) it state = rrsNext q fuel it >>= fun result => match result with
      | (none, _) => .ok state
      | (some rr, it) => body state rr >>= fun state => forRrs q body fuel it state := rfl

/-- The fuel that is enough does not depend on what is done with the records. -/
theorem forRrs_eq {it : Rrs} {rrs : List Rr} {stop : Nat} (headers : Headers q it.pos rrs stop)
    (count : it.seen + rrs.length = it.count) :
    ∃ enough, ∀ fuel, enough ≤ fuel → ∀ {body : State → Rr → Except ReadFault State}
      {state final : State}, rrs.foldlM body state = .ok final →
        forRrs q body fuel it state = .ok final := by
  induction rrs generalizing it with
  | nil =>
    refine ⟨1, fun fuel more => ?_⟩
    obtain ⟨fuel, rfl⟩ := Nat.exists_eq_add_of_le' more
    intro body state final folded
    have ended : rrsNext q fuel it = .ok (none, it) := if_pos count
    rw [forRrs_succ, ended]
    exact folded
  | cons rr rrs ih =>
    cases headers with
    | cons stops header rest =>
      rw [length_cons] at count
      obtain ⟨one, next⟩ := @rrsNext_eq q it _ _ (by omega) stops header
      obtain ⟨others, looped⟩ := @ih { it with pos := rr.rdoff, seen := it.seen + 1 } rest
        (by show it.seen + 1 + rrs.length = it.count; omega)
      refine ⟨max one others + 1, fun fuel more => ?_⟩
      obtain ⟨fuel, rfl⟩ := Nat.exists_eq_add_of_le' (Nat.le_trans (Nat.le_add_left 1 _) more)
      intro body state final folded
      obtain ⟨middle, first, folded⟩ := ok_bind folded
      have turn : rrsNext q fuel it = .ok (some rr, _) := next fuel (by omega)
      rw [forRrs_succ, turn]
      show (body state rr >>= _) = _
      rw [first]
      exact looped fuel (by omega) folded

theorem forRrs_ok {fuel : Nat} {it : Rrs} {state final : State}
    (result : forRrs q body fuel it state = .ok final) (seen : it.seen ≤ it.count) :
    ∃ rrs stop, Headers q it.pos rrs stop ∧ it.seen + rrs.length = it.count ∧
      rrs.foldlM body state = .ok final := by
  induction fuel generalizing it state with
  | zero => exact nomatch result
  | succ fuel ih =>
    obtain ⟨⟨got, next⟩, nexted, result⟩ := ok_bind result
    rcases rrsNext_ok nexted with ⟨rfl, done⟩ | ⟨rr, used, rfl, more, stops, header, rfl⟩
    · cases result
      exact ⟨[], it.pos, .nil, done, rfl⟩
    · obtain ⟨middle, first, result⟩ := ok_bind result
      obtain ⟨rrs, stop, headers, count, folded⟩ := ih result
        (by show it.seen + 1 ≤ it.count; omega)
      refine ⟨rr :: rrs, stop, .cons stops header headers, ?_, ?_⟩
      · dsimp only at count
        rw [length_cons]
        omega
      · rw [foldlM_cons, first]
        exact folded

end Loops

/-- The records that the iterator over a section yields. -/
def rrsList (q : Packet) (fuel : Nat) (dnsRr : DnsRr) : Except ReadFault (List Rr) :=
  forRrs q (fun seen rr => .ok (seen ++ [rr])) fuel (dnsRrIter dnsRr) []

theorem foldlM_append (rrs seen : List Rr) :
    rrs.foldlM (fun seen rr => (.ok (seen ++ [rr]) : Except ReadFault (List Rr))) seen =
      .ok (seen ++ rrs) := by
  induction rrs generalizing seen with
  | nil => exact congrArg Except.ok (append_nil seen).symm
  | cons rr rrs ih =>
    rw [foldlM_cons]
    refine (ih (seen ++ [rr])).trans ?_
    rw [append_assoc]
    rfl

theorem rrsList_iff {off stop : Nat} {rrs : List Rr} :
    Returns (fun fuel => rrsList q fuel (section' off stop rrs.length)) rrs ↔
      ∃ last, Headers q off rrs last := by
  constructor
  · intro returns
    obtain ⟨fuel, result⟩ := returns.exists_fuel
    obtain ⟨others, last, headers, _, folded⟩ := forRrs_ok result (Nat.zero_le _)
    rw [foldlM_append] at folded
    cases folded
    exact ⟨last, headers⟩
  · rintro ⟨last, headers⟩
    obtain ⟨enough, looped⟩ := @forRrs_eq q _ (dnsRrIter (section' off stop rrs.length)) _ _ headers
      (Nat.zero_add _)
    exact ⟨enough, fun fuel more => looped fuel more (foldlM_append rrs [])⟩

/-! ### The record of EDNS -/

/-- The records of EDNS among records. -/
def ednsOf (rrs : List Rr) : List Rr := rrs.filter (·.rrtype = edns)

theorem ednsOf_cons (rr : Rr) (rrs : List Rr) :
    ednsOf (rr :: rrs) = if rr.rrtype = edns then rr :: ednsOf rrs else ednsOf rrs := by
  unfold ednsOf
  rw [filter_cons]
  simp only [decide_eq_true_eq]

theorem findEdnsFrom_succ (it : Rrs) (found : Option Rr) (fuel : Nat) :
    findEdnsFrom q (fuel + 1) it found = rrsNext q fuel it >>= fun result => match result with
      | (none, _) => .ok (if found.isSome then 1 else 0, found)
      | (some rr, it) =>
        if rr.rrtype ≠ edns then findEdnsFrom q fuel it found
        else if found.isSome then .ok (bpDoubleEdns, found)
        else findEdnsFrom q fuel it (some rr) := rfl

theorem findEdnsFrom_eq {rrs : List Rr} {stop : Nat} {found : Option Rr}
    (headers : Headers q it.pos rrs stop) (count : it.seen + rrs.length = it.count)
    (single : (found.toList ++ ednsOf rrs).length ≤ 1) :
    Returns (fun fuel => findEdnsFrom q fuel it found)
      ((found.toList ++ ednsOf rrs).length, (found.toList ++ ednsOf rrs).head?) := by
  induction rrs generalizing it found with
  | nil =>
    refine .succ (findEdnsFrom_succ it found) ?_
    have ended : Returns (fun fuel => rrsNext q fuel it) (none, it) := by
      unfold rrsNext
      rw [length_nil, Nat.add_zero] at count
      simp only [count]
      exact .pure
    refine ended.bind ?_
    cases found with
    | none => exact .pure
    | some rr => exact .pure
  | cons rr rrs ih =>
    cases headers with
    | cons stops header rest =>
      rw [length_cons] at count
      have later : it.seen + 1 + rrs.length = it.count := by omega
      refine .succ (findEdnsFrom_succ it found) ?_
      refine (rrsNext_eq (by omega) stops header).bind ?_
      dsimp only
      rw [ednsOf_cons] at single ⊢
      by_cases other : rr.rrtype ≠ edns
      · rw [if_neg other] at single ⊢
        simp only [if_pos other]
        exact @ih { it with pos := rr.rdoff, seen := it.seen + 1 } found rest later single
      · rw [if_pos (not_not.mp other)] at single ⊢
        simp only [if_neg other]
        cases found with
        | some first => simp at single
        | none =>
          exact @ih { it with pos := rr.rdoff, seen := it.seen + 1 } (some rr) rest later single

theorem findEdnsFrom_double {rrs : List Rr} {stop : Nat} {found : Option Rr}
    (headers : Headers q it.pos rrs stop) (count : it.seen + rrs.length ≤ it.count)
    (double : 2 ≤ (found.toList ++ ednsOf rrs).length) :
    ∃ got, Returns (fun fuel => findEdnsFrom q fuel it found) (bpDoubleEdns, got) := by
  induction rrs generalizing it found with
  | nil =>
    cases found with
    | none => exact absurd double (by decide)
    | some rr => exact absurd double (by simp [ednsOf])
  | cons rr rrs ih =>
    cases headers with
    | cons stops header rest =>
      rw [length_cons] at count
      have later : it.seen + 1 + rrs.length ≤ it.count := by omega
      have turn := rrsNext_eq (by omega) stops header
      rw [ednsOf_cons] at double
      by_cases other : rr.rrtype ≠ edns
      · rw [if_neg other] at double
        obtain ⟨got, returns⟩ := @ih
          { it with pos := rr.rdoff, seen := it.seen + 1 } found rest later double
        refine ⟨got, .succ (findEdnsFrom_succ it found) (turn.bind ?_)⟩
        simp only [if_pos other]
        exact returns
      · rw [if_pos (not_not.mp other)] at double
        cases found with
        | some first =>
          refine ⟨some first, .succ (findEdnsFrom_succ it (some first)) (turn.bind ?_)⟩
          simp only [if_neg other]
          exact .pure
        | none =>
          obtain ⟨got, returns⟩ := @ih
            { it with pos := rr.rdoff, seen := it.seen + 1 } (some rr) rest later double
          refine ⟨got, .succ (findEdnsFrom_succ it none) (turn.bind ?_)⟩
          simp only [if_neg other]
          exact returns

theorem findEdnsFrom_ok {fuel zret : Nat} {found got : Option Rr}
    (result : findEdnsFrom q fuel it found = .ok (zret, got)) (seen : it.seen ≤ it.count)
    (fresh : found.toList.length ≤ 1) :
    ∃ rrs stop, Headers q it.pos rrs stop ∧
      ((it.seen + rrs.length = it.count ∧ (found.toList ++ ednsOf rrs).length ≤ 1 ∧
        zret = (found.toList ++ ednsOf rrs).length ∧ got = (found.toList ++ ednsOf rrs).head?) ∨
      (it.seen + rrs.length ≤ it.count ∧ 2 ≤ (found.toList ++ ednsOf rrs).length ∧
        zret = bpDoubleEdns)) := by
  induction fuel generalizing it found with
  | zero => exact nomatch result
  | succ fuel ih =>
    obtain ⟨⟨next, after⟩, nexted, result⟩ := ok_bind result
    rcases rrsNext_ok nexted with ⟨rfl, done⟩ | ⟨rr, used, rfl, more, stops, header, rfl⟩
    · refine ⟨[], it.pos, .nil, .inl ⟨done, ?_⟩⟩
      obtain ⟨rfl, rfl⟩ := Prod.mk.inj (Except.ok.inj result)
      cases found with
      | none => exact ⟨Nat.zero_le 1, rfl, rfl⟩
      | some rr => exact ⟨Nat.le_refl 1, rfl, rfl⟩
    have later : it.seen + 1 ≤ it.count := by omega
    dsimp only at result
    by_cases other : rr.rrtype ≠ edns
    · rw [if_pos other] at result
      obtain ⟨rrs, stop, headers, cases⟩ := ih result later fresh
      refine ⟨rr :: rrs, stop, .cons stops header headers, ?_⟩
      rw [ednsOf_cons, if_neg other, length_cons]
      dsimp only at cases
      rwa [Nat.add_assoc, Nat.add_comm 1] at cases
    rw [if_neg other] at result
    cases found with
    | some first =>
      cases result
      refine ⟨[rr], _, .cons stops header .nil, .inr ⟨later, ?_, rfl⟩⟩
      rw [ednsOf_cons, if_pos (not_not.mp other)]
      exact Nat.le_refl 2
    | none =>
      obtain ⟨rrs, stop, headers, cases⟩ := ih result later (Nat.le_refl 1)
      refine ⟨rr :: rrs, stop, .cons stops header headers, ?_⟩
      rw [ednsOf_cons, if_pos (not_not.mp other), length_cons]
      dsimp only at cases
      rwa [Nat.add_assoc, Nat.add_comm 1] at cases

theorem findEdns_eq {off stop count last : Nat} {rrs : List Rr} (headers : Headers q off rrs last)
    (all : rrs.length = count) (single : (ednsOf rrs).length ≤ 1) :
    Returns (fun fuel => findEdns q fuel (section' off stop count))
      ((ednsOf rrs).length, (ednsOf rrs).head?) :=
  @findEdnsFrom_eq q (dnsRrIter (section' off stop count)) rrs last none headers
    ((Nat.zero_add _).trans all) single

/-! ### Options -/

/-- How the options of a record end. -/
inductive OptsEnd where
  | exact
  | hdrOverrun
  | dataOverrun
  deriving DecidableEq

/-- What `parse_edns` returns then. -/
def OptsEnd.code : OptsEnd → Nat
  | exact => 0
  | hdrOverrun => bpEndsOptHdrOverrun
  | dataOverrun => bpEndsOptDataOverrun

/-- A number of options from an offset on, and how they end in data that ends at another. -/
inductive Options (q : Packet) (len : Nat) : Nat → Nat → OptsEnd → Prop
  | exact : Options q len len 0 .exact
  | hdrOverrun {used : Nat} (more : used < len) (past : len < used + 4) :
      Options q len used 0 .hdrOverrun
  | dataOverrun {used optlen : Nat} (room : used + 4 ≤ len) (got : q.read16 (used + 2) = .ok optlen)
      (past : len < used + 4 + optlen) : Options q len used 0 .dataOverrun
  | option {used optlen count : Nat} {last : OptsEnd} (room : used + 4 ≤ len)
      (got : q.read16 (used + 2) = .ok optlen) (inside : used + 4 + optlen ≤ len)
      (rest : Options q len (used + 4 + optlen) count last) : Options q len used (count + 1) last

theorem Options.unique {len count other : Nat} {last end' : OptsEnd}
    (options : Options q len used count last) (others : Options q len used other end') :
    count = other ∧ last = end' := by
  induction options generalizing other with
  | exact =>
    cases others with
    | exact => exact ⟨rfl, rfl⟩
    | hdrOverrun more _ => exact absurd more (Nat.lt_irrefl _)
    | dataOverrun room _ _ => omega
    | option room _ _ _ => omega
  | hdrOverrun more past =>
    cases others with
    | exact => exact absurd more (Nat.lt_irrefl _)
    | hdrOverrun _ _ => exact ⟨rfl, rfl⟩
    | dataOverrun room _ _ => omega
    | option room _ _ _ => omega
  | dataOverrun room got past =>
    cases others with
    | exact => omega
    | hdrOverrun _ past' => omega
    | dataOverrun _ _ _ => exact ⟨rfl, rfl⟩
    | option _ got' inside _ =>
      cases got.symm.trans got'
      omega
  | option room got inside _ ih =>
    cases others with
    | exact => omega
    | hdrOverrun _ past => omega
    | dataOverrun _ got' past =>
      cases got.symm.trans got'
      omega
    | option _ got' _ rest =>
      cases got.symm.trans got'
      obtain ⟨rfl, rfl⟩ := ih rest
      exact ⟨rfl, rfl⟩

theorem parseOpts_eq {len count : Nat} {last : OptsEnd} (options : Options q len used count last)
    (optcount : Nat) :
    Returns (fun fuel => parseOpts q len fuel used optcount) (last.code, optcount + count) := by
  induction options generalizing optcount with
  | exact =>
    refine .last fun fuel => ?_
    rw [parseOpts, if_pos (Nat.le_refl len)]
    rfl
  | hdrOverrun more past =>
    refine .last fun fuel => ?_
    rw [parseOpts, if_neg (Nat.not_le_of_lt more), if_pos past]
    rfl
  | dataOverrun room got past =>
    refine .last fun fuel => ?_
    rw [parseOpts, if_neg (by omega), if_neg (Nat.not_lt_of_le room), got]
    exact if_pos past
  | @option used optlen count last room got inside _ ih =>
    rw [← Nat.add_assoc, Nat.add_right_comm]
    refine (ih (optcount + 1)).succ fun fuel => ?_
    rw [parseOpts, if_neg (by omega), if_neg (Nat.not_lt_of_le room), got]
    exact if_neg (Nat.not_lt_of_le inside)

theorem parseOpts_ok {len fuel optcount zret n : Nat}
    (result : parseOpts q len fuel used optcount = .ok (zret, n)) (inside : used ≤ len) :
    ∃ count last, Options q len used count last ∧ zret = last.code ∧ n = optcount + count := by
  induction fuel generalizing used optcount with
  | zero => exact nomatch result
  | succ fuel ih =>
    rw [parseOpts] at result
    by_cases done : len ≤ used
    · rw [if_pos done] at result
      cases result
      obtain rfl := Nat.le_antisymm inside done
      exact ⟨0, _, .exact, rfl, rfl⟩
    rw [if_neg done] at result
    by_cases past : len < used + 4
    · rw [if_pos past] at result
      cases result
      exact ⟨0, _, .hdrOverrun (Nat.lt_of_not_le done) past, rfl, rfl⟩
    rw [if_neg past] at result
    obtain ⟨optlen, got, result⟩ := ok_bind result
    by_cases long : len < used + 4 + optlen
    · rw [if_pos long] at result
      cases result
      exact ⟨0, _, .dataOverrun (Nat.le_of_not_lt past) got long, rfl, rfl⟩
    rw [if_neg long] at result
    obtain ⟨count, last, options, rfl, rfl⟩ := ih result (Nat.le_of_not_lt long)
    exact ⟨count + 1, last, .option (Nat.le_of_not_lt past) got (Nat.le_of_not_lt long) options, rfl,
      by omega⟩

/-- The record of EDNS makes the packet rejected. -/
def EdnsBad (q : Packet) (rr : Rr) : Prop :=
  (∃ name, q.bytes[rr.nameoff]? = some name ∧ name ≠ 0) ∨
    q.bytes[rr.nameoff]? = some 0 ∧
      ∃ count, Options q (rr.rdoff + rr.rdlen) rr.rdoff count .hdrOverrun

/-- The record of EDNS is admitted with a number of options. An option whose data overruns the data
of the record does not make the packet rejected: the code for it is less than `BP_MINVAL`. -/
def EdnsGood (q : Packet) (rr : Rr) (count : Nat) : Prop :=
  q.bytes[rr.nameoff]? = some 0 ∧ ∃ last, last ≠ .hdrOverrun ∧
    Options q (rr.rdoff + rr.rdlen) rr.rdoff count last

theorem parseEdns_bad (bad : EdnsBad q rr) :
    ∃ zret parsed, isBadParse zret = true ∧
      Returns (fun fuel => parseEdns q fuel rr) (zret, parsed) := by
  unfold parseEdns
  rcases bad with ⟨name, first, some⟩ | ⟨first, count, options⟩
  · refine ⟨bpEndsNonemptyName, { found := true }, by decide, ?_⟩
    rw [read_eq first]
    refine Returns.pure.bind ?_
    simp only [if_pos some]
    exact .pure
  · refine ⟨bpEndsOptHdrOverrun, ednsOfRr rr (0 + count), by decide, ?_⟩
    rw [read_eq first]
    exact Returns.pure.bind ((parseOpts_eq options 0).bind .pure)

theorem parseEdns_good {count : Nat} (good : EdnsGood q rr count) :
    ∃ zret, isBadParse zret = false ∧
      Returns (fun fuel => parseEdns q fuel rr) (zret, ednsOfRr rr count) := by
  obtain ⟨first, last, fine, options⟩ := good
  refine ⟨last.code, ?_, ?_⟩
  · cases last with
    | exact => decide
    | hdrOverrun => exact absurd rfl fine
    | dataOverrun => decide
  · unfold parseEdns
    rw [read_eq first]
    have returns := parseOpts_eq options 0
    rw [Nat.zero_add] at returns
    exact Returns.pure.bind (returns.bind .pure)

theorem parseEdns_ok {fuel zret : Nat} {parsed : Edns}
    (result : parseEdns q fuel rr = .ok (zret, parsed)) :
    (isBadParse zret = true ∧ EdnsBad q rr) ∨
      (isBadParse zret = false ∧ ∃ count, EdnsGood q rr count ∧ parsed = ednsOfRr rr count) := by
  obtain ⟨name, first, result⟩ := ok_bind result
  by_cases some : name ≠ 0
  · rw [if_pos some] at result
    obtain ⟨rfl, -⟩ := Prod.mk.inj (Except.ok.inj result)
    exact .inl ⟨by decide, .inl ⟨name, read_ok first, some⟩⟩
  rw [if_neg some] at result
  obtain rfl := not_not.mp some
  obtain ⟨⟨zret, optcount⟩, parsedOpts, result⟩ := ok_bind result
  cases result
  obtain ⟨count, last, options, rfl, rfl⟩ := parseOpts_ok parsedOpts (Nat.le_add_right _ _)
  rw [Nat.zero_add]
  cases last with
  | exact => exact .inr ⟨by decide, count, ⟨read_ok first, .exact, by decide, options⟩, rfl⟩
  | hdrOverrun => exact .inl ⟨by decide, .inr ⟨read_ok first, count, options⟩⟩
  | dataOverrun =>
    exact .inr ⟨by decide, count, ⟨read_ok first, .dataOverrun, by decide, options⟩, rfl⟩

/-! ### Packets -/

/-- The packets that the parser rejects. -/
def Rejected (q : Packet) : Prop :=
  IsEmpty (Layout q) ∨ ∃ layout : Layout q, ∃ rrs stop, Headers q layout.authEnd rrs stop ∧
    (rrs.length ≤ layout.hdr.arcount ∧ 2 ≤ (ednsOf rrs).length ∨
      rrs.length = layout.hdr.arcount ∧ ∃ rr, ednsOf rrs = [rr] ∧ EdnsBad q rr)

/-- The packets that the parser accepts, with what it says of them. -/
def Accepted (q : Packet) (pkt : DnsPkt) : Prop :=
  ∃ layout : Layout q, ∃ rrs stop, Headers q layout.authEnd rrs stop ∧
    rrs.length = layout.hdr.arcount ∧
    (ednsOf rrs = [] ∧ pkt = layout.pkt ∨
      ∃ rr count, ednsOf rrs = [rr] ∧ EdnsGood q rr count ∧
        pkt = { layout.pkt with edns := ednsOfRr rr count })

theorem parsePkt_accepts {pkt : DnsPkt} (accepted : Accepted q pkt) :
    Returns (parsePkt q) (0, pkt) := by
  obtain ⟨layout, rrs, stop, headers, all, parsed⟩ := accepted
  unfold parsePkt
  refine (parseSections_eq layout).bind ?_
  simp only [not_isBadParse layout.addlEnd_le, Bool.false_eq_true, if_false]
  rcases parsed with ⟨none, rfl⟩ | ⟨rr, count, one, good, rfl⟩
  · have found := @findEdns_eq q _ layout.addlEnd _ _ _ headers all (by rw [none]; exact Nat.zero_le 1)
    rw [none] at found
    exact found.bind .pure
  · have found := @findEdns_eq q _ layout.addlEnd _ _ _ headers all (by rw [one]; exact Nat.le_refl 1)
    rw [one] at found
    obtain ⟨zret, fine, returns⟩ := parseEdns_good good
    refine found.bind (returns.bind ?_)
    simp only [fine]
    exact .pure

theorem parsePkt_rejects (rejected : Rejected q) :
    ∃ ret pkt, isBadParse ret = true ∧ Returns (parsePkt q) (ret, pkt) := by
  unfold parsePkt
  rcases rejected with none | ⟨layout, rrs, stop, headers, ⟨some, double⟩ | ⟨all, rr, one, bad⟩⟩
  · obtain ⟨used, pkt, bad, returns⟩ := parseSections_bad none
    refine ⟨used, pkt, bad, returns.bind ?_⟩
    simp only [bad, if_true]
    exact .pure
  · obtain ⟨got, found⟩ := @findEdnsFrom_double q (dnsRrIter layout.pkt.addl) rrs stop none headers
      ((Nat.zero_add _).trans_le some) double
    refine ⟨bpDoubleEdns, layout.pkt, by decide, (parseSections_eq layout).bind ?_⟩
    simp only [not_isBadParse layout.addlEnd_le, Bool.false_eq_true, if_false]
    exact found.bind .pure
  · have found := @findEdns_eq q _ layout.addlEnd _ _ _ headers all (by rw [one]; exact Nat.le_refl 1)
    rw [one] at found
    obtain ⟨zret, parsed, badEdns, returns⟩ := parseEdns_bad bad
    refine ⟨zret, { layout.pkt with edns := parsed }, badEdns, (parseSections_eq layout).bind ?_⟩
    simp only [not_isBadParse layout.addlEnd_le, Bool.false_eq_true, if_false]
    refine found.bind (returns.bind ?_)
    simp only [badEdns, if_true]
    exact .pure

theorem parsePkt_ok {fuel ret : Nat} {pkt : DnsPkt} (result : parsePkt q fuel = .ok (ret, pkt)) :
    (isBadParse ret = true ∧ Rejected q) ∨ (ret = 0 ∧ Accepted q pkt) := by
  obtain ⟨⟨used, first⟩, sections, result⟩ := ok_bind result
  dsimp only at result
  by_cases bad : isBadParse used = true
  · rw [if_pos bad] at result
    obtain ⟨rfl, -⟩ := Prod.mk.inj (Except.ok.inj result)
    refine .inl ⟨bad, .inl ⟨fun layout => ?_⟩⟩
    have same := (parseSections_persists fuel _ sections).unique (parseSections_eq layout)
    rw [(Prod.mk.inj same).1] at bad
    exact absurd bad (Bool.eq_false_iff.mp (not_isBadParse layout.addlEnd_le))
  rw [if_neg bad] at result
  obtain ⟨layout, rfl, rfl⟩ := parseSections_ok sections (Bool.eq_false_iff.mpr bad)
  obtain ⟨⟨zret, rr⟩, found, result⟩ := ok_bind result
  obtain ⟨rrs, stop, headers, ⟨all, single, rfl, rfl⟩ | ⟨some, double, rfl⟩⟩ :=
    findEdnsFrom_ok found (Nat.zero_le _) (Nat.zero_le 1)
  · replace all : rrs.length = layout.hdr.arcount := (Nat.zero_add _).symm.trans all
    replace single : (ednsOf rrs).length ≤ 1 := single
    dsimp only at result
    cases records : ednsOf rrs with
    | nil =>
      rw [records] at result
      cases result
      exact .inr ⟨rfl, layout, rrs, stop, headers, all, .inl ⟨records, rfl⟩⟩
    | cons rr others =>
      rw [records] at result single
      obtain rfl := eq_nil_of_length_eq_zero (Nat.le_zero.mp (Nat.le_of_succ_le_succ single))
      obtain ⟨⟨zret, parsed⟩, edns, result⟩ := ok_bind result
      dsimp only at result
      rcases parseEdns_ok edns with ⟨badEdns, bad⟩ | ⟨fine, count, good, rfl⟩
      · rw [if_pos badEdns] at result
        obtain ⟨rfl, -⟩ := Prod.mk.inj (Except.ok.inj result)
        exact .inl ⟨badEdns, .inr ⟨layout, rrs, stop, headers, .inr ⟨all, rr, records, bad⟩⟩⟩
      · rw [if_neg (Bool.eq_false_iff.mp fine)] at result
        cases result
        exact .inr ⟨rfl, layout, rrs, stop, headers, all, .inr ⟨rr, count, records, good, rfl⟩⟩
  · obtain ⟨rfl, -⟩ := Prod.mk.inj (Except.ok.inj result)
    exact .inl ⟨(by decide : isBadParse bpDoubleEdns = true), .inr ⟨layout, rrs, stop, headers,
      .inl ⟨(Nat.zero_add _).symm.trans_le some, double⟩⟩⟩

end Dns

end Splintermail
