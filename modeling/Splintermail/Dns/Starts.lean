/-
This file says where the iterators over a DNS query are started and where the first pass over
it has been, and proves for which queries the one is only where the other was.

The iterator over records starts again at each of its records. It is where the first pass
has been as long as the records before it have no data. A name is read where the question
would be, also if there is none, and then the first pass may have come there through a
pointer in the name of a record, or not at all.
-/

import Splintermail.Dns.Reads
import Splintermail.Dns.Wellformed

namespace Splintermail

open List

namespace Dns

variable {q : Packet} {pkt : DnsPkt}

/-! ### Where the iterators are started -/

/-- An iterator over labels, records or options, and the offset that it reads at first. -/
inductive Start where
  | label (off : Nat)
  | record (off : Nat)
  | option (off : Nat)

/-- The calls of `rrs_next` between two iterators, with the records they have returned. -/
inductive RrsWalk (q : Packet) : Rrs → List Rr → Rrs → Prop
  | nil {it : Rrs} : RrsWalk q it [] it
  | cons {fuel : Nat} {it next last : Rrs} {rr : Rr} {rrs : List Rr}
      (got : rrsNext q fuel it = .ok (some rr, next)) (rest : RrsWalk q next rrs last) :
      RrsWalk q it (rr :: rrs) last

/-- The names that the loop of `fmt_qstn` reads, from a number of questions and their offset on. -/
inductive QstnWalk (q : Packet) : Nat → Nat → Nat → Prop
  | here {count off : Nat} : QstnWalk q (count + 1) off off
  | next {count off pos : Nat} {labels : Labels}
      (printed : Returns (fun fuel => fmtLabels q fuel off) labels)
      (rest : QstnWalk q count labels.used pos) : QstnWalk q (count + 1) off pos

/-- The options that the loop of `fmt_edns` reads, from a number of options and their offset on. -/
inductive OptsWalk (q : Packet) : Nat → Nat → Nat → Prop
  | here {count off : Nat} : OptsWalk q (count + 1) off off
  | next {count off pos optlen : Nat} (got : q.read16 (off + 2) = .ok optlen)
      (rest : OptsWalk q count (off + 4 + optlen) pos) : OptsWalk q (count + 1) off pos

/-- Where `fmt_pkt` starts an iterator. -/
inductive LogStarts (q : Packet) (pkt : DnsPkt) : Start → Prop
  | qstn {off : Nat} (walk : QstnWalk q pkt.qstn.qdcount pkt.qstn.off off) :
      LogStarts q pkt (.label off)
  | record {dnsRr : DnsRr} {rrs : List Rr} {it : Rrs} (among : dnsRr ∈ [pkt.ans, pkt.auth, pkt.addl])
      (walk : RrsWalk q (dnsRrIter dnsRr) rrs it) (more : it.seen ≠ it.count) :
      LogStarts q pkt (.record it.pos)
  | name {dnsRr : DnsRr} {rrs : List Rr} {it : Rrs} {rr : Rr}
      (among : dnsRr ∈ [pkt.ans, pkt.auth, pkt.addl])
      (walk : RrsWalk q (dnsRrIter dnsRr) rrs it) (mem : rr ∈ rrs) :
      LogStarts q pkt (.label rr.nameoff)
  | option {off : Nat} (found : pkt.edns.found = true)
      (walk : OptsWalk q pkt.edns.optcount pkt.edns.optoff off) : LogStarts q pkt (.option off)

/-- Where `handle_packet` starts an iterator: in `find_edns`, which returns at the second record of
EDNS, in `labels_read_reverse` and `write_qstn`, and in the log. -/
inductive Starts (q : Packet) (log : Bool) (rcap : Nat) : Start → Prop
  | edns {used : Nat} {pkt : DnsPkt} {rrs : List Rr} {it : Rrs} (big : 512 ≤ rcap)
      (first : Returns (parseSections q) (used, pkt)) (good : isBadParse used = false)
      (walk : RrsWalk q (dnsRrIter pkt.addl) rrs it) (single : (ednsOf rrs).length ≤ 1)
      (more : it.seen ≠ it.count) : Starts q log rcap (.record it.pos)
  | qstn {ret : Nat} {pkt : DnsPkt} (big : 512 ≤ rcap) (parsed : Returns (parsePkt q) (ret, pkt))
      (good : isBadParse ret = false) : Starts q log rcap (.label pkt.qstn.off)
  | log {ret : Nat} {pkt : DnsPkt} {start : Start} (big : 512 ≤ rcap)
      (parsed : Returns (parsePkt q) (ret, pkt)) (good : isBadParse ret = false)
      (on : log = true) (starts : LogStarts q pkt start) : Starts q log rcap start

/-! ### Where the first pass has been -/

/-- A name that starts at the first offset is read through the second one. -/
inductive Visits (q : Packet) : Nat → Nat → Prop
  | here {off : Nat} : Visits q off off
  | pointer {off pos : Nat} {l l2 : UInt8} (first : q.bytes[off]? = some l) (isPointer : IsPointer l)
      (second : q.bytes[off + 1]? = some l2) (rest : Visits q (pointee l l2) pos) : Visits q off pos
  | label {off pos : Nat} {l : UInt8} (first : q.bytes[off]? = some l) (notRoot : l ≠ 0)
      (notPointer : ¬IsPointer l) (rest : Visits q (off + 1 + l.toNat) pos) : Visits q off pos

/-- An option that is whole, after other such options in data that ends at an offset. -/
inductive OptionAt (q : Packet) (len : Nat) : Nat → Nat → Prop
  | here {used optlen : Nat} (room : used + 4 ≤ len) (got : q.read16 (used + 2) = .ok optlen)
      (inside : used + 4 + optlen ≤ len) : OptionAt q len used used
  | later {used optlen pos : Nat} (room : used + 4 ≤ len) (got : q.read16 (used + 2) = .ok optlen)
      (inside : used + 4 + optlen ≤ len) (rest : OptionAt q len (used + 4 + optlen) pos) :
      OptionAt q len used pos

/-- The records of all sections. -/
def Layout.records (layout : Layout q) : List Rr := layout.ans ++ (layout.auth ++ layout.addl)

/-- The offsets that were validated: those that `parse_name` went through, in the name of a question
or of a record, those at which `parse_rr` found a record, and those at which `parse_edns` counted
an option. -/
inductive Validated (q : Packet) : Start → Prop
  | qstn {layout : Layout q} {front : List (List Lstr)} {off pos : Nat}
      (named : Names q dnsHdrSize front off) (more : front.length < layout.hdr.qdcount)
      (visits : Visits q off pos) : Validated q (.label pos)
  | name {layout : Layout q} {rr : Rr} {pos : Nat} (mem : rr ∈ layout.records)
      (visits : Visits q rr.nameoff pos) : Validated q (.label pos)
  | record {layout : Layout q} {rr : Rr} (mem : rr ∈ layout.records) :
      Validated q (.record rr.nameoff)
  | option {ret : Nat} {pkt : DnsPkt} {rr : Rr} {off : Nat}
      (parsed : Returns (parsePkt q) (ret, pkt)) (good : isBadParse ret = false)
      (found : Returns (fun fuel => findEdns q fuel pkt.addl) (1, some rr))
      (counted : OptionAt q (rr.rdoff + rr.rdlen) rr.rdoff off) : Validated q (.option off)

/-! ### Layouts -/

variable {off : Nat}

theorem NameEnd.lt {stop : Nat} (stops : NameEnd q off stop) : off < stop := by
  induction stops with
  | root _ => exact Nat.lt_succ_self _
  | pointer _ _ => exact Nat.lt_add_of_pos_right Nat.two_pos
  | label _ _ _ _ ih => omega

theorem Names.unique {stop other : Nat} {names others : List (List Lstr)}
    (named : Names q off names stop) (second : Names q off others other)
    (same : names.length = others.length) : names = others ∧ stop = other := by
  induction named generalizing others other with
  | nil =>
    cases second with
    | nil => exact ⟨rfl, rfl⟩
    | cons => cases same
  | cons valid _ ih =>
    cases second with
    | nil => cases same
    | cons valid' rest =>
      obtain rfl := valid.name.unique valid'.name
      obtain rfl := valid.stops.unique valid'.stops
      obtain ⟨rfl, rfl⟩ := ih rest (Nat.succ.inj same)
      exact ⟨rfl, rfl⟩

theorem Records.unique {stop other : Nat} {rrs others : List Rr} (records : Records q off rrs stop)
    (second : Records q off others other) (same : rrs.length = others.length) :
    rrs = others ∧ stop = other := by
  induction records generalizing others other with
  | nil =>
    cases second with
    | nil => exact ⟨rfl, rfl⟩
    | cons => cases same
  | cons valid header _ _ ih =>
    cases second with
    | nil => cases same
    | cons valid' header' _ rest =>
      obtain rfl := valid.stops.unique valid'.stops
      cases header.symm.trans header'
      obtain ⟨rfl, rfl⟩ := ih rest (Nat.succ.inj same)
      exact ⟨rfl, rfl⟩

theorem Layout.unique (layout other : Layout q) : layout = other := by
  obtain ⟨hdr, names, namesEnd, qtype, qclass, ans, ansEnd, auth, authEnd, addl, addlEnd, header, named,
    qdcount, typed, classed, answers, ancount, authorities, nscount, additionals, arcount⟩ := layout
  obtain ⟨hdr', names', namesEnd', qtype', qclass', ans', ansEnd', auth', authEnd', addl', addlEnd',
    header', named', qdcount', typed', classed', answers', ancount', authorities', nscount',
    additionals', arcount'⟩ := other
  obtain ⟨-, rfl⟩ := Prod.mk.inj (Except.ok.inj (header.symm.trans header'))
  obtain ⟨rfl, rfl⟩ := named.unique named' (qdcount.trans qdcount'.symm)
  cases typed.symm.trans typed'
  cases classed.symm.trans classed'
  obtain ⟨rfl, rfl⟩ := answers.unique answers' (ancount.trans ancount'.symm)
  obtain ⟨rfl, rfl⟩ := authorities.unique authorities' (nscount.trans nscount'.symm)
  obtain ⟨rfl, rfl⟩ := additionals.unique additionals' (arcount.trans arcount'.symm)
  rfl

theorem Records.append {mid stop : Nat} {front back : List Rr} (first : Records q off front mid)
    (second : Records q mid back stop) : Records q off (front ++ back) stop := by
  induction first with
  | nil => exact second
  | cons valid header inside _ ih => exact .cons valid header inside (ih second)

section

variable {stop : Nat} {rrs : List Rr} (records : Records q off rrs stop)

include records

theorem Records.prefix {front : List Rr} (begins : front <+: rrs) :
    ∃ mid, Records q off front mid := by
  obtain ⟨back, rfl⟩ := begins
  induction front generalizing off with
  | nil => exact ⟨off, .nil⟩
  | cons rr front ih =>
    cases records with
    | cons valid header inside rest =>
      obtain ⟨mid, others⟩ := ih rest
      exact ⟨mid, .cons valid header inside others⟩

theorem Records.le_nameoff : ∀ rr ∈ rrs, off ≤ rr.nameoff := by
  induction records with
  | nil => exact nofun
  | cons valid header _ _ ih =>
    obtain ⟨-, same, start⟩ := readRrHdr_ok header
    have forward := valid.stops.lt
    intro other mem
    rcases mem_cons.mp mem with rfl | mem
    · exact Nat.le_of_eq same.symm
    · have later := ih other mem
      omega

theorem Records.apart :
    ∀ rr ∈ rrs, ∀ other ∈ rrs, rr.nameoff < other.nameoff → rr.rdoff + rr.rdlen ≤ other.nameoff := by
  induction records with
  | nil => exact nofun
  | cons valid header _ rest ih =>
    obtain ⟨-, same, start⟩ := readRrHdr_ok header
    have forward := valid.stops.lt
    intro rr mem other otherMember less
    rcases mem_cons.mp mem with rfl | among
    · rcases mem_cons.mp otherMember with rfl | otherAmong
      · exact absurd less (Nat.lt_irrefl _)
      · exact rest.le_nameoff other otherAmong
    · rcases mem_cons.mp otherMember with rfl | otherAmong
      · have later := rest.le_nameoff rr among
        omega
      · exact ih rr among other otherAmong less

end

theorem Layout.allRecords (layout : Layout q) :
    Records q (layout.namesEnd + 4) layout.records layout.addlEnd :=
  layout.answers.append (layout.authorities.append layout.additionals)

/-! ### Walks over records -/

theorem Headers.prefix {stop : Nat} {rrs front : List Rr} (headers : Headers q off rrs stop)
    (begins : front <+: rrs) : ∃ mid, Headers q off front mid := by
  obtain ⟨back, rfl⟩ := begins
  induction front generalizing off with
  | nil => exact ⟨off, .nil⟩
  | cons rr front ih =>
    cases headers with
    | cons stops header rest =>
      obtain ⟨mid, others⟩ := ih rest
      exact ⟨mid, .cons stops header others⟩

theorem Headers.begins {mid stop : Nat} {front rrs : List Rr} (walked : Headers q off front mid)
    (headers : Headers q off rrs stop) (shorter : front.length ≤ rrs.length) : front <+: rrs := by
  obtain ⟨last, taken⟩ := headers.prefix ( take_prefix front.length rrs)
  obtain ⟨same, -⟩ := walked.unique taken (length_take_of_le shorter).symm
  rw [same]
  exact take_prefix _ _

theorem Headers.next {mid stop : Nat} {front rrs : List Rr} (walked : Headers q off front mid)
    (headers : Headers q off rrs stop) (less : front.length < rrs.length) :
    ∃ rr ∈ rrs, rr.nameoff = mid := by
  induction walked generalizing rrs stop with
  | nil =>
    cases headers with
    | nil => exact absurd less (Nat.lt_irrefl _)
    | cons _ header _ => exact ⟨_, mem_cons_self, (readRrHdr_ok header).2.1⟩
  | cons stops header _ ih =>
    cases headers with
    | nil => exact absurd less (Nat.not_lt_zero _)
    | cons stops' header' rest =>
      obtain rfl := stops.unique stops'
      cases header.symm.trans header'
      obtain ⟨rr, mem, same⟩ := ih rest (Nat.lt_of_succ_lt_succ less)
      exact ⟨rr, .tail _ mem, same⟩

theorem RrsWalk.headers {it last : Rrs} {rrs : List Rr} (walk : RrsWalk q it rrs last) :
    Headers q it.pos rrs last.pos ∧ last.seen = it.seen + rrs.length ∧ last.count = it.count ∧
      (it.seen ≤ it.count → last.seen ≤ last.count) := by
  induction walk with
  | nil => exact ⟨.nil, rfl, rfl, id⟩
  | cons got _ ih =>
    obtain ⟨headers, seen, count, bound⟩ := ih
    rcases rrsNext_ok got with ⟨none, -⟩ | ⟨rr, used, same, more, stops, header, rfl⟩
    · cases none
    cases same
    dsimp only at headers seen count bound
    refine ⟨.cons stops header headers, ?_, count, fun before => bound ?_⟩
    · rw [length_cons]
      omega
    · omega

theorem RrsWalk.of_headers {it : Rrs} {rrs : List Rr} {stop : Nat} (headers : Headers q it.pos rrs stop)
    (room : it.seen + rrs.length ≤ it.count) :
    RrsWalk q it rrs { it with pos := stop, seen := it.seen + rrs.length } := by
  generalize position : it.pos = off at headers
  induction headers generalizing it with
  | nil =>
    rw [← position]
    exact .nil
  | @cons off used stop rr rrs stops header _ ih =>
    rw [length_cons] at room
    rw [← position] at stops header
    obtain ⟨fuel, got⟩ := (@rrsNext_eq q it _ _ (by omega) stops header).exists_fuel
    have rest := @ih { it with pos := rr.rdoff, seen := it.seen + 1 }
      (by show it.seen + 1 + rrs.length ≤ it.count; omega) rfl
    dsimp only at rest
    rw [Nat.add_assoc, Nat.add_comm 1] at rest
    exact .cons got rest

theorem Headers.walk {dnsRr : DnsRr} {front : List Rr} {mid : Nat}
    (walked : Headers q dnsRr.off front mid) (less : front.length < dnsRr.count) :
    ∃ it, RrsWalk q (dnsRrIter dnsRr) front it ∧ it.pos = mid ∧ it.seen ≠ it.count := by
  refine ⟨_, @RrsWalk.of_headers q (dnsRrIter dnsRr) _ _ walked ?_, rfl, ?_⟩
  · show 0 + front.length ≤ dnsRr.count
    omega
  · show 0 + front.length ≠ dnsRr.count
    omega

/-! ### When a walk is validated -/

/-- Records have no data, but for the last one, if the iterator over them is only where the first
pass has been. -/
theorem Records.bare_of_validated (layout : Layout q) {last : Nat} {rrs : List Rr}
    (records : Records q off rrs last) (inside : ∀ rr ∈ rrs, rr ∈ layout.records)
    (validated : ∀ front rr back mid, rrs = front ++ rr :: back → Headers q off front mid →
      Validated q (.record mid)) : Bare rrs := by
  induction records with
  | nil => exact nofun
  | @cons off used stop labels rr rrs valid header _ rest ih =>
    cases rrs with
    | nil => exact nofun
    | cons next others =>
      -- the next record is looked for right after the header of this one
      have there := validated [rr] next others rr.rdoff rfl (.cons valid.stops header .nil)
      have bare : rr.rdlen = 0 := by
        obtain ⟨-, same, ends⟩ := readRrHdr_ok header
        have forward := valid.stops.lt
        generalize position : rr.rdoff = pos at there
        cases there with
        | @record other found mem =>
          obtain rfl := other.unique layout
          have apart := other.allRecords.apart rr (inside rr mem_cons_self) found mem (by omega)
          omega
      rw [bare, Nat.add_zero] at ih
      have later := ih (fun other mem => inside other (.tail _ mem)) fun front other back mid split
        walked => validated (rr :: front) other back mid (congrArg _ split)
          (.cons valid.stops header walked)
      intro other mem
      rw [dropLast_cons_cons] at mem
      rcases mem_cons.mp mem with rfl | mem
      · exact bare
      · exact later other mem

variable {layout : Layout q}

/-- A walk that goes on at a bare section is where the first pass has been. -/
theorem Bare.validated {last mid : Nat} {rrs front : List Rr} (bare : Bare rrs)
    (records : Records q off rrs last) (inside : ∀ rr ∈ rrs, rr ∈ layout.records)
    (walked : Headers q off front mid) (less : front.length < rrs.length) :
    Validated q (.record mid) := by
  obtain ⟨stop, headers⟩ := bare.headers records
  obtain ⟨rr, mem, rfl⟩ := walked.next headers less
  exact .record (inside rr mem)

namespace Layout

variable (layout : Layout q)

/-- There is a second record of EDNS, and no record before it has data. -/
def DoubleEdns : Prop := ∃ rrs, rrs <+: layout.addl ∧ Bare rrs ∧ 2 ≤ (ednsOf rrs).length

/-- The only record of EDNS makes the packet rejected. -/
def BadEdns : Prop := ∃ rr, ednsOf layout.addl = [rr] ∧ EdnsBad q rr

/-- There is a question, or the name of a record is read through the offset where its name would
be. -/
def Questioned : Prop :=
  layout.hdr.qdcount ≠ 0 ∨ ∃ rr ∈ layout.records, Visits q rr.nameoff dnsHdrSize

variable {layout} {rr : Rr}

theorem mem_records_ans (mem : rr ∈ layout.ans) : rr ∈ layout.records :=
  mem_append_left _ mem

theorem mem_records_auth (mem : rr ∈ layout.auth) : rr ∈ layout.records :=
  mem_append_right _ (mem_append_left _ mem)

theorem mem_records_addl (mem : rr ∈ layout.addl) : rr ∈ layout.records :=
  mem_append_right _ (mem_append_right _ mem)

end Layout

/-! ### EDNS -/

theorem ednsOf_length_le {front rrs : List Rr} (begins : front <+: rrs) :
    (ednsOf front).length ≤ (ednsOf rrs).length :=
  (begins.sublist.filter _).length_le

/-- A list with two records of EDNS begins with one that ends with the second of them. -/
theorem exists_second {rrs : List Rr} (double : 2 ≤ (ednsOf rrs).length) :
    ∃ front, front <+: rrs ∧ (ednsOf front.dropLast).length ≤ 1 ∧ 2 ≤ (ednsOf front).length := by
  induction rrs using List.reverseRecOn with
  | nil => exact absurd double (Nat.not_succ_le_zero 1)
  | append_singleton init rr ih =>
    by_cases before : 2 ≤ (ednsOf init).length
    · obtain ⟨front, begins, single, double⟩ := ih before
      exact ⟨front, begins.trans (prefix_append _ _), single, double⟩
    · refine ⟨init ++ [rr], prefix_refl _, ?_, double⟩
      rw [dropLast_concat]
      omega

theorem options_total {len used : Nat} (inside : len ≤ q.len) (started : used ≤ len) :
    ∃ count last, Options q len used count last := by
  generalize bounded : len - used = left
  induction left using Nat.strong_induction_on generalizing used with
  | _ left ih =>
    rcases Nat.eq_or_lt_of_le started with rfl | more
    · exact ⟨0, .exact, .exact⟩
    by_cases past : len < used + 4
    · exact ⟨0, .hdrOverrun, .hdrOverrun more past⟩
    have room := Nat.le_of_not_lt past
    obtain ⟨optlen, got⟩ := @read16_eq q (used + 2) (by omega)
    by_cases long : len < used + 4 + optlen
    · exact ⟨0, .dataOverrun, .dataOverrun room got long⟩
    · obtain ⟨count, last, rest⟩ := ih (len - (used + 4 + optlen)) (by omega)
        (Nat.le_of_not_lt long) rfl
      exact ⟨count + 1, last, .option room got (Nat.le_of_not_lt long) rest⟩

theorem edns_total {rr : Rr} (inside : rr.rdoff + rr.rdlen ≤ q.len) (named : rr.nameoff < q.len) :
    EdnsBad q rr ∨ ∃ count, EdnsGood q rr count := by
  obtain ⟨name, first⟩ := exists_byte named
  by_cases some : name ≠ 0
  · exact .inl (.inl ⟨name, first, some⟩)
  rw [not_not.mp some] at first
  obtain ⟨count, last, options⟩ := options_total inside (Nat.le_add_right rr.rdoff rr.rdlen)
  by_cases overrun : last = .hdrOverrun
  · exact .inl (.inr ⟨first, count, overrun ▸ options⟩)
  · exact .inr ⟨count, first, last, overrun, options⟩

theorem Layout.accepted_or (layout : Layout q) (bare : Bare layout.addl) :
    layout.DoubleEdns ∨ layout.BadEdns ∨ ∃ pkt, Accepted q pkt := by
  obtain ⟨last, headers⟩ := bare.headers layout.additionals
  by_cases double : 2 ≤ (ednsOf layout.addl).length
  · exact .inl ⟨layout.addl, prefix_refl _, bare, double⟩
  refine .inr ?_
  cases found : ednsOf layout.addl with
  | nil => exact .inr ⟨_, layout, layout.addl, last, headers, layout.arcount, .inl ⟨found, rfl⟩⟩
  | cons rr others =>
    rw [found, length_cons] at double
    obtain rfl : others = [] := length_eq_zero_iff.mp (by omega)
    have mem : rr ∈ layout.addl := mem_of_mem_filter
      (show rr ∈ ednsOf layout.addl by rw [found]; exact mem_singleton_self rr)
    obtain ⟨labels, used, valid, -, inside⟩ := layout.additionals.each rr mem
    rcases edns_total inside valid.name.lt_len with bad | ⟨count, good⟩
    · exact .inl ⟨rr, found, bad⟩
    · exact .inr ⟨_, layout, layout.addl, last, headers, layout.arcount, .inr ⟨rr, count, found, good, rfl⟩⟩

theorem Layout.rejected (reason : layout.DoubleEdns ∨ Bare layout.addl ∧ layout.BadEdns) :
    Rejected q := by
  rcases reason with ⟨rrs, begins, bare, double⟩ | ⟨bare, rr, single, bad⟩
  · obtain ⟨mid, records⟩ := layout.additionals.prefix begins
    obtain ⟨stop, headers⟩ := bare.headers records
    exact .inr ⟨layout, rrs, stop, headers, .inl ⟨layout.arcount ▸ begins.length_le, double⟩⟩
  · obtain ⟨stop, headers⟩ := bare.headers layout.additionals
    exact .inr ⟨layout, layout.addl, stop, headers, .inr ⟨layout.arcount, rr, single, bad⟩⟩

/-! ### What is validated -/

section Validated

variable {layout : Layout q}

theorem validated_edns (aligned : layout.DoubleEdns ∨ Bare layout.addl) {rrs : List Rr} {it : Rrs}
    (walk : RrsWalk q (dnsRrIter layout.pkt.addl) rrs it) (single : (ednsOf rrs).length ≤ 1)
    (more : it.seen ≠ it.count) : Validated q (.record it.pos) := by
  obtain ⟨headers, seen, count, bound⟩ := walk.headers
  rcases aligned with ⟨front, begins, bare, double⟩ | bare
  · obtain ⟨mid, records⟩ := layout.additionals.prefix begins
    refine bare.validated records (fun _ mem => Layout.mem_records_addl (begins.subset mem)) headers
      (Nat.lt_of_not_le fun long => ?_)
    -- the walk ends at the second record of EDNS
    obtain ⟨last, walked⟩ := bare.headers records
    have more := ednsOf_length_le (walked.begins headers long)
    omega
  · refine bare.validated layout.additionals (fun _ => Layout.mem_records_addl) headers ?_
    have whole : it.count = layout.addl.length := count.trans layout.arcount.symm
    have few := bound (Nat.zero_le _)
    have none : (dnsRrIter layout.pkt.addl).seen = 0 := rfl
    omega

theorem QstnWalk.named {count off pos stop : Nat} {names : List (List Lstr)}
    (walk : QstnWalk q count off pos) (named : Names q off names stop) (all : names.length = count) :
    ∃ front, Names q off front pos ∧ front.length < count := by
  induction walk generalizing names with
  | here => exact ⟨[], .nil, Nat.succ_pos _⟩
  | next printed _ ih =>
    cases named with
    | nil => cases all
    | cons valid rest =>
      obtain ⟨last, returns, stops⟩ := fmtLabels_eq valid.name
      obtain rfl := printed.unique returns
      obtain rfl := stops.unique valid.stops
      obtain ⟨front, others, less⟩ := ih rest (Nat.succ.inj all)
      exact ⟨_, .cons valid others, Nat.succ_lt_succ less⟩

theorem OptsWalk.counted {len count used off : Nat} {last : OptsEnd} (walk : OptsWalk q count used off)
    (options : Options q len used count last) : OptionAt q len used off := by
  induction walk with
  | here =>
    cases options with
    | option room got inside _ => exact .here room got inside
  | next got _ ih =>
    cases options with
    | option room got' inside rest =>
      cases got.symm.trans got'
      exact .later room got inside (ih rest)

/-- The sections of an accepted packet are those of its layout. -/
theorem Accepted.among (accepted : Accepted q pkt) (bare : Bare layout.ans ∧ Bare layout.auth)
    (bareAddl : Bare layout.addl) {dnsRr : DnsRr} (among : dnsRr ∈ [pkt.ans, pkt.auth, pkt.addl]) :
    ∃ rrs last, Records q dnsRr.off rrs last ∧ rrs.length = dnsRr.count ∧
      (∀ rr ∈ rrs, rr ∈ layout.records) ∧ Bare rrs := by
  obtain ⟨-, -, ans, auth, addl⟩ := accepted.sections layout
  rcases mem_cons.mp among with rfl | among
  · rw [ans]
    exact ⟨_, _, layout.answers, rfl, fun _ => Layout.mem_records_ans, bare.1⟩
  rcases mem_cons.mp among with rfl | among
  · rw [auth]
    exact ⟨_, _, layout.authorities, rfl, fun _ => Layout.mem_records_auth, bare.2⟩
  · rw [mem_singleton.mp among, addl]
    exact ⟨_, _, layout.additionals, rfl, fun _ => Layout.mem_records_addl, bareAddl⟩

theorem Accepted.validated_log (accepted : Accepted q pkt) (bare : Bare layout.ans ∧ Bare layout.auth)
    (bareAddl : Bare layout.addl) {start : Start} (starts : LogStarts q pkt start) :
    Validated q start := by
  cases starts with
  | qstn walk =>
    have hdr := (accepted.sections layout).1
    rw [accepted.qdcount, accepted.off, hdr] at walk
    obtain ⟨front, named, more⟩ := walk.named layout.named layout.qdcount
    exact .qstn named more .here
  | record among walk more =>
    obtain ⟨rrs, last, records, all, inside, bare⟩ := accepted.among bare bareAddl among
    obtain ⟨headers, seen, count, bound⟩ := walk.headers
    refine bare.validated records inside headers ?_
    have few := bound (Nat.zero_le _)
    dsimp only [dnsRrIter] at seen count
    omega
  | name among walk mem =>
    obtain ⟨rrs, last, records, all, inside, bare⟩ := accepted.among bare bareAddl among
    obtain ⟨headers, seen, count, bound⟩ := walk.headers
    obtain ⟨stop, whole⟩ := bare.headers records
    have begins := headers.begins whole (by
      have few := bound (Nat.zero_le _)
      dsimp only [dnsRrIter] at seen count
      omega)
    exact .name (inside _ (begins.subset mem)) .here
  | option found walk =>
    have parsed := parsePkt_accepts accepted
    obtain ⟨rrs, stop, headers, all, ⟨-, rfl⟩ | ⟨rr, count, single, ⟨-, last, -, options⟩, rfl⟩⟩ :=
      accepted.of_layout layout
    · cases found
    · have one := @findEdns_eq q _ layout.addlEnd _ _ _ headers all (by rw [single]; exact Nat.le_refl 1)
      rw [single] at one
      exact .option parsed (by decide) one (walk.counted options)

end Validated

/-! ### What validation says of a packet -/

section Started

variable {log : Bool} {rcap : Nat}

/-- The walk of `find_edns`. -/
theorem Layout.edns_of_validated (layout : Layout q) (big : 512 ≤ rcap)
    (validated : ∀ start, Starts q log rcap start → Validated q start) :
    layout.DoubleEdns ∨ Bare layout.addl := by
  have bare : ∀ {rrs last}, Records q layout.authEnd rrs last → rrs <+: layout.addl →
      (ednsOf rrs.dropLast).length ≤ 1 → Bare rrs := by
    intro rrs last records begins single
    refine records.bare_of_validated layout (fun _ mem => mem_records_addl (begins.subset mem))
      fun front rr back mid split walked => ?_
    have before : front <+: rrs.dropLast := by
      rw [split, dropLast_append_of_ne_nil (cons_ne_nil _ _)]
      exact prefix_append _ _
    have room := begins.length_le
    rw [layout.arcount, split, length_append, length_cons] at room
    obtain ⟨it, walk, rfl, more⟩ := @Headers.walk q layout.pkt.addl _ _ walked
      (by show front.length < layout.hdr.arcount; omega)
    exact validated _ (.edns big (parseSections_eq layout) (not_isBadParse layout.addlEnd_le) walk
      ((ednsOf_length_le before).trans single) more)
  rcases Nat.lt_or_ge 1 (ednsOf layout.addl).length with double | single
  · obtain ⟨front, begins, single, double⟩ := exists_second double
    obtain ⟨mid, records⟩ := layout.additionals.prefix begins
    exact .inl ⟨front, begins, bare records begins single, double⟩
  · exact .inr (bare layout.additionals (prefix_refl _)
      ((ednsOf_length_le ( dropLast_prefix _)).trans single))

/-- The walk of the log over a section. -/
theorem Layout.bare_of_logged (layout : Layout q)
    (validated : ∀ start, LogStarts q pkt start → Validated q start) {dnsRr : DnsRr}
    (among : dnsRr ∈ [pkt.ans, pkt.auth, pkt.addl]) {rrs : List Rr} {last : Nat}
    (records : Records q dnsRr.off rrs last) (inside : ∀ rr ∈ rrs, rr ∈ layout.records)
    (all : rrs.length = dnsRr.count) : Bare rrs := by
  refine records.bare_of_validated layout inside fun front rr back mid split walked => ?_
  rw [split, length_append, length_cons] at all
  obtain ⟨it, walk, rfl, more⟩ := walked.walk (by omega)
  exact validated _ (.record among walk more)

theorem Layout.questioned_of_validated (layout : Layout q)
    (validated : Validated q (.label dnsHdrSize)) : layout.Questioned := by
  generalize spelled : Start.label dnsHdrSize = start at validated
  cases validated with
  | @qstn other front off pos named more visits =>
    obtain rfl := other.unique layout
    exact .inl (Nat.ne_of_gt (Nat.lt_of_le_of_lt (Nat.zero_le _) more))
  | @name other rr pos mem visits =>
    obtain rfl := other.unique layout
    obtain rfl := Start.label.inj spelled
    exact .inr ⟨rr, mem, visits⟩
  | record => cases spelled
  | option => cases spelled

end Started

theorem Name.of_visits {pos : Nat} {labels : List Lstr} (name : Name q off labels)
    (visits : Visits q off pos) : ∃ others, Name q pos others := by
  induction visits generalizing labels with
  | here => exact ⟨labels, name⟩
  | pointer first isPointer second _ ih =>
    cases name with
    | root zero =>
      cases zero.symm.trans first
      exact absurd isPointer not_isPointer_zero
    | pointer first' _ second' rest =>
      cases first.symm.trans first'
      cases second.symm.trans second'
      exact ih rest
    | label first' _ notPointer _ =>
      cases first.symm.trans first'
      exact absurd isPointer notPointer
  | label first notRoot notPointer _ ih =>
    cases name with
    | root zero => exact absurd (Option.some.inj (zero.symm.trans first)).symm notRoot
    | pointer first' isPointer _ _ =>
      cases first.symm.trans first'
      exact absurd isPointer notPointer
    | label first' _ _ rest =>
      cases first.symm.trans first'
      exact ih rest

theorem Layout.Questioned.name (questioned : layout.Questioned) (accepted : Accepted q pkt) :
    ∃ labels, Name q dnsHdrSize labels := by
  rcases questioned with some | ⟨rr, mem, visits⟩
  · rw [← (accepted.sections layout).1] at some
    obtain ⟨labels, stop, valid⟩ := accepted.named some
    exact ⟨labels, valid.name⟩
  · obtain ⟨labels, used, valid, -, -⟩ := layout.allRecords.each rr mem
    exact valid.name.of_visits visits

/-! ### Queries -/

section Queries

variable {log : Bool} {iget : Bytes → Lookup} {rbuf : Nat → UInt8} {rcap : Nat}

/-- What follows if the iterators are only where the first pass has been. -/
theorem Layout.aligned_of_validated (layout : Layout q) (big : 512 ≤ rcap)
    (validated : ∀ start, Starts q log rcap start → Validated q start) :
    layout.DoubleEdns ∨ Bare layout.addl ∧
      (layout.BadEdns ∨ layout.Questioned ∧ (log = true → Bare layout.ans ∧ Bare layout.auth)) := by
  rcases layout.edns_of_validated big validated with double | bare
  · exact .inl double
  rcases layout.accepted_or bare with double | bad | ⟨pkt, accepted⟩
  · exact .inl double
  · exact .inr ⟨bare, .inl bad⟩
  have parsed := parsePkt_accepts accepted
  have asked := validated _ (.qstn big parsed (by decide))
  rw [accepted.off] at asked
  refine .inr ⟨bare, .inr ⟨layout.questioned_of_validated asked, fun on => ?_⟩⟩
  obtain ⟨-, -, ans, auth, -⟩ := accepted.sections layout
  have logged : ∀ start, LogStarts q pkt start → Validated q start := fun start starts =>
    validated start (.log big parsed (by decide) on starts)
  have answers : Records q pkt.ans.off layout.ans layout.ansEnd := ans ▸ layout.answers
  have authorities : Records q pkt.auth.off layout.auth layout.authEnd := auth ▸ layout.authorities
  exact ⟨layout.bare_of_logged logged mem_cons_self answers (fun _ => mem_records_ans) (by rw [ans]; rfl),
    layout.bare_of_logged logged (.tail _ mem_cons_self) authorities (fun _ => mem_records_auth)
      (by rw [auth]; rfl)⟩

theorem Rejected.not_parsed (rejected : Rejected q) {ret : Nat} (good : isBadParse ret = false) :
    ¬Returns (parsePkt q) (ret, pkt) := by
  intro parsed
  obtain ⟨other, _, bad, returns⟩ := parsePkt_rejects rejected
  obtain ⟨rfl, -⟩ := Prod.mk.inj (parsed.unique returns)
  rw [good] at bad
  cases bad

variable {start : Start} (starts : Starts q log rcap start)

include starts

theorem Starts.big : 512 ≤ rcap := by
  cases starts with
  | edns big _ _ _ _ _ => exact big
  | qstn big _ _ => exact big
  | log big _ _ _ _ => exact big

/-- In a packet that is rejected only `find_edns` starts an iterator. -/
theorem Rejected.starts_edns (rejected : Rejected q) :
    ∃ used pkt rrs it, Returns (parseSections q) (used, pkt) ∧ isBadParse used = false ∧
      RrsWalk q (dnsRrIter pkt.addl) rrs it ∧ (ednsOf rrs).length ≤ 1 ∧ it.seen ≠ it.count ∧
      start = .record it.pos := by
  cases starts with
  | edns _ first good walk single more => exact ⟨_, _, _, _, first, good, walk, single, more, rfl⟩
  | qstn _ parsed good => exact (rejected.not_parsed good parsed).elim
  | log _ parsed good _ _ => exact (rejected.not_parsed good parsed).elim

/-- In a packet that is accepted the walk of `find_edns`, the name of the question and the log start
the iterators. -/
theorem Accepted.validated (accepted : Accepted q pkt) {layout : Layout q} (bare : Bare layout.addl)
    (questioned : layout.Questioned) (printed : log = true → Bare layout.ans ∧ Bare layout.auth) :
    Validated q start := by
  have parsed := parsePkt_accepts accepted
  cases starts with
  | edns _ first _ walk single more =>
    obtain ⟨-, rfl⟩ := Prod.mk.inj (first.unique (parseSections_eq layout))
    exact validated_edns (.inr bare) walk single more
  | qstn _ again _ =>
    obtain ⟨-, rfl⟩ := Prod.mk.inj (again.unique parsed)
    rw [accepted.off]
    rcases questioned with some | ⟨rr, mem, visits⟩
    · exact @Validated.qstn q layout [] _ _ .nil (Nat.pos_of_ne_zero some) .here
    · exact .name mem visits
  | log _ again _ on starts =>
    obtain ⟨-, rfl⟩ := Prod.mk.inj (again.unique parsed)
    exact accepted.validated_log (printed on) bare starts

end Queries

/-- The server ends, reads only what it has received, and starts its iterators only where the first
pass has been, if and only if the buffer for the response is too small, or the first pass rejects
the packet, or it is rejected for its records of EDNS before the walk to them has left the records,
or none of its additional records but the last one has data, its question was read by the first
pass, and with the log on the same is true of the other sections. -/
theorem handlePacket_safe_iff (q : Packet) (log : Bool) (iget : Bytes → Lookup) (rbuf : Nat → UInt8)
    (rcap : Nat) :
    (Safe (handlePacket q log iget rbuf rcap) ∧ ∀ start, Starts q log rcap start → Validated q start) ↔
      rcap < 512 ∨ IsEmpty (Layout q) ∨ ∃ layout : Layout q, layout.DoubleEdns ∨
        Bare layout.addl ∧ (layout.BadEdns ∨
          layout.Questioned ∧ (log = true → Bare layout.ans ∧ Bare layout.auth)) := by
  constructor
  · rintro ⟨-, validated⟩
    rcases Nat.lt_or_ge rcap 512 with small | big
    · exact .inl small
    rcases isEmpty_or_nonempty (Layout q) with none | ⟨⟨layout⟩⟩
    · exact .inr (.inl none)
    · exact .inr (.inr ⟨layout, layout.aligned_of_validated big validated⟩)
  rcases Nat.lt_or_ge rcap 512 with small | big
  · exact fun _ => ⟨handlePacket_small small, fun _ starts =>
      absurd small (Nat.not_lt_of_le starts.big)⟩
  rintro (small | none | ⟨layout, aligned⟩)
  · exact absurd small (Nat.not_lt_of_le big)
  · refine ⟨Rejected.safe (.inl none), fun start starts => ?_⟩
    obtain ⟨_, _, _, _, first, good, -⟩ := Rejected.starts_edns starts (.inl none)
    obtain ⟨fuel, result⟩ := first.exists_fuel
    obtain ⟨layout, -, -⟩ := parseSections_ok result good
    exact (none.false layout).elim
  by_cases reason : layout.DoubleEdns ∨ Bare layout.addl ∧ layout.BadEdns
  · have rejected := Layout.rejected reason
    refine ⟨rejected.safe, fun start starts => ?_⟩
    obtain ⟨_, _, _, _, first, -, walked, single, more, rfl⟩ := rejected.starts_edns starts
    obtain ⟨-, rfl⟩ := Prod.mk.inj (first.unique (parseSections_eq layout))
    exact validated_edns (aligned.imp_right And.left) walked single more
  rw [not_or, not_and] at reason
  obtain ⟨bare, content⟩ := aligned.resolve_left reason.1
  obtain ⟨questioned, printed⟩ := content.resolve_left (reason.2 bare)
  obtain ⟨pkt, accepted⟩ :=
    ((layout.accepted_or bare).resolve_left reason.1).resolve_left (reason.2 bare)
  obtain ⟨labels, name⟩ := questioned.name accepted
  exact ⟨handlePacket_safe accepted name big fun on => accepted.fmtPkt_eq layout (printed on) bare,
    fun _ starts => accepted.validated starts bare questioned printed⟩

/-- A query without a question is read without end, and where a record has a byte of data the next
one is looked for at that byte. -/
theorem not_safe_validated :
    ¬Safe (handlePacket noQuestion false (fun _ => .absent) (fun _ => 0) 512) ∧
      Starts hiddenEdns false 512 (.record 50) ∧ ¬Validated hiddenEdns (.record 50) := by
  refine ⟨not_safe_noQuestion, ?_, ?_⟩
  · have headers : Headers hiddenEdns 39 [⟨39, 1, 1, 0, 1, 50⟩] 50 := .cons (.root rfl) rfl .nil
    have walk := @RrsWalk.of_headers hiddenEdns (dnsRrIter hiddenEdnsLayout.pkt.addl) _ _ headers
      (by decide)
    exact .edns (Nat.le_refl 512) (parseSections_eq hiddenEdnsLayout) (by decide) walk (by decide)
      (by decide)
  · intro validated
    generalize spelled : Start.record 50 = start at validated
    cases validated with
    | @record layout rr mem =>
      obtain rfl := layout.unique hiddenEdnsLayout
      have apart : ∀ rr ∈ hiddenEdnsLayout.records, rr.nameoff ≠ 50 := by decide
      exact apart rr mem (Start.record.inj spelled).symm
    | qstn => cases spelled
    | name => cases spelled
    | option => cases spelled

end Dns

end Splintermail
