/-
This file says which packets have a layout, and proves that the first pass over a query
returns on every packet and accepts those.

Of a packet there is at most one layout. What the first pass hands on to the rest of the
server is where the question and the sections of the layout start, and how long they are.
-/

import Splintermail.Dns.Layout

namespace Splintermail

namespace Dns

variable {q : Packet}

/-- The parts of a packet, each right after the one before it. -/
structure Layout (q : Packet) where
  hdr : DnsHdr
  names : List (List Lstr)
  namesEnd : Nat
  qtype : Nat
  qclass : Nat
  ans : List Rr
  ansEnd : Nat
  auth : List Rr
  authEnd : Nat
  addl : List Rr
  addlEnd : Nat
  header : parseHdr q 0 = .ok (dnsHdrSize, hdr)
  named : Names q dnsHdrSize names namesEnd
  qdcount : names.length = hdr.qdcount
  typed : q.read16 namesEnd = .ok qtype
  classed : q.read16 (namesEnd + 2) = .ok qclass
  answers : Records q (namesEnd + 4) ans ansEnd
  ancount : ans.length = hdr.ancount
  authorities : Records q ansEnd auth authEnd
  nscount : auth.length = hdr.nscount
  additionals : Records q authEnd addl addlEnd
  arcount : addl.length = hdr.arcount

/-- A section as the parser hands it on. -/
def section' (off stop count : Nat) : DnsRr := { off, len := stop - off, count }

/-- The result of the first pass. -/
def Layout.pkt (layout : Layout q) : DnsPkt where
  hdr := layout.hdr
  qstn := {
    off := dnsHdrSize
    len := layout.namesEnd + 4 - dnsHdrSize
    qdcount := layout.hdr.qdcount
    qtype := layout.qtype
    qclass := layout.qclass }
  ans := section' (layout.namesEnd + 4) layout.ansEnd layout.hdr.ancount
  auth := section' layout.ansEnd layout.authEnd layout.hdr.nscount
  addl := section' layout.authEnd layout.addlEnd layout.hdr.arcount

/-! ### Where the parts end -/

theorem Layout.question_le (layout : Layout q) : layout.namesEnd + 4 ≤ q.len :=
  read16_ok layout.classed

theorem Layout.ansEnd_le (layout : Layout q) : layout.ansEnd ≤ q.len :=
  layout.answers.stop_le layout.question_le

theorem Layout.authEnd_le (layout : Layout q) : layout.authEnd ≤ q.len :=
  layout.authorities.stop_le layout.ansEnd_le

theorem Layout.addlEnd_le (layout : Layout q) : layout.addlEnd ≤ q.len :=
  layout.additionals.stop_le layout.authEnd_le

/-! ### The parsers of the parts -/

theorem parseHdr_total (q : Packet) : parseHdr q 0 = .ok (bpHdrOverrun, {}) ∨
    ∃ hdr, parseHdr q 0 = .ok (dnsHdrSize, hdr) ∧ dnsHdrSize ≤ q.len := by
  unfold parseHdr
  rw [if_neg (by decide)]
  by_cases past : q.len < 0 + 12
  · rw [if_pos past]
    exact .inl rfl
  rw [if_neg past]
  obtain ⟨id, first⟩ := @read16_eq q 0 (by omega)
  obtain ⟨flags, second⟩ := @exists_byte q (0 + 2) (by omega)
  obtain ⟨codes, third⟩ := @exists_byte q (0 + 3) (by omega)
  obtain ⟨qdcount, fourth⟩ := @read16_eq q (0 + 4) (by omega)
  obtain ⟨ancount, fifth⟩ := @read16_eq q (0 + 6) (by omega)
  obtain ⟨nscount, sixth⟩ := @read16_eq q (0 + 8) (by omega)
  obtain ⟨arcount, seventh⟩ := @read16_eq q (0 + 10) (by omega)
  rw [first, read_eq second, read_eq third, fourth, fifth, sixth, seventh]
  exact .inr ⟨_, rfl, Nat.le_of_not_lt past⟩

theorem parseQstn_eq {off namesEnd qtype qclass : Nat} {names : List (List Lstr)}
    (inside : off ≤ q.len) (named : Names q off names namesEnd)
    (typed : q.read16 namesEnd = .ok qtype) (classed : q.read16 (namesEnd + 2) = .ok qclass) :
    Returns (fun fuel => parseQstn q fuel names.length off) (namesEnd + 4,
      { off, len := namesEnd + 4 - off, qdcount := names.length, qtype, qclass }) := by
  have room := read16_ok classed
  unfold parseQstn
  simp only [not_isBadParse inside, Bool.false_eq_true, if_false]
  refine (parseNames_eq named).bind ?_
  simp only [not_isBadParse (named.stop_le inside), Bool.false_eq_true, Nat.not_lt_of_le room, typed,
    classed]
  exact .pure

theorem parseQstn_ok {fuel qdcount off n : Nat} {qstn : DnsQstn}
    (result : parseQstn q fuel qdcount off = .ok (n, qstn)) (good : isBadParse n = false) :
    isBadParse off = false ∧ ∃ names namesEnd qtype qclass, names.length = qdcount ∧
      Names q off names namesEnd ∧ q.read16 namesEnd = .ok qtype ∧
      q.read16 (namesEnd + 2) = .ok qclass ∧ n = namesEnd + 4 ∧
      qstn = { off, len := namesEnd + 4 - off, qdcount, qtype, qclass } := by
  unfold parseQstn at result
  by_cases bad : isBadParse off = true
  · rw [if_pos bad] at result
    obtain ⟨rfl, -⟩ := Prod.mk.inj (Except.ok.inj result)
    exact absurd bad (Bool.eq_false_iff.mp good)
  rw [if_neg bad] at result
  obtain ⟨namesEnd, parsed, result⟩ := ok_bind result
  by_cases badNames : isBadParse namesEnd = true
  · rw [if_pos badNames] at result
    obtain ⟨rfl, -⟩ := Prod.mk.inj (Except.ok.inj result)
    exact absurd badNames (Bool.eq_false_iff.mp good)
  rw [if_neg badNames] at result
  by_cases past : q.len < namesEnd + 4
  · rw [if_pos past] at result
    obtain ⟨rfl, -⟩ := Prod.mk.inj (Except.ok.inj result)
    exact nomatch good
  rw [if_neg past] at result
  obtain ⟨qtype, typed, result⟩ := ok_bind result
  obtain ⟨qclass, classed, result⟩ := ok_bind result
  cases result
  obtain ⟨names, same, named⟩ := parseNames_ok parsed (Bool.eq_false_iff.mpr badNames)
  exact ⟨Bool.eq_false_iff.mpr bad, names, namesEnd, qtype, qclass, same, named, typed, classed, rfl,
    rfl⟩

theorem parseQstn_total (q : Packet) (qdcount off : Nat) :
    ∃ result, Returns (fun fuel => parseQstn q fuel qdcount off) result := by
  unfold parseQstn
  by_cases bad : isBadParse off = true
  · simp only [bad, if_true]
    exact ⟨_, .pure⟩
  obtain ⟨namesEnd, parsed⟩ := parseNames_total q qdcount off
  simp only [bad]
  refine parsed.exists_bind ?_
  by_cases badNames : isBadParse namesEnd = true
  · simp only [badNames, if_true]
    exact ⟨_, .pure⟩
  by_cases past : q.len < namesEnd + 4
  · simp only [badNames, past, if_true]
    exact ⟨_, .pure⟩
  obtain ⟨qtype, typed⟩ := @read16_eq q namesEnd (by omega)
  obtain ⟨qclass, classed⟩ := @read16_eq q (namesEnd + 2) (by omega)
  simp only [badNames, past, typed, classed]
  exact ⟨_, .pure⟩

theorem parseRr_eq {off stop : Nat} {rrs : List Rr} (inside : off ≤ q.len)
    (records : Records q off rrs stop) :
    Returns (fun fuel => parseRr q fuel rrs.length off) (stop, section' off stop rrs.length) := by
  unfold parseRr
  simp only [not_isBadParse inside, Bool.false_eq_true, if_false]
  refine (parseRrs_eq records).bind ?_
  simp only [not_isBadParse (records.stop_le inside), Bool.false_eq_true]
  exact .pure

theorem parseRr_ok {fuel count off n : Nat} {dnsRr : DnsRr}
    (result : parseRr q fuel count off = .ok (n, dnsRr)) (good : isBadParse n = false) :
    isBadParse off = false ∧ ∃ rrs, rrs.length = count ∧ Records q off rrs n ∧
      dnsRr = section' off n count := by
  unfold parseRr at result
  by_cases bad : isBadParse off = true
  · rw [if_pos bad] at result
    obtain ⟨rfl, -⟩ := Prod.mk.inj (Except.ok.inj result)
    exact absurd bad (Bool.eq_false_iff.mp good)
  rw [if_neg bad] at result
  obtain ⟨used, parsed, result⟩ := ok_bind result
  by_cases badUsed : isBadParse used = true
  · rw [if_pos badUsed] at result
    obtain ⟨rfl, -⟩ := Prod.mk.inj (Except.ok.inj result)
    exact absurd badUsed (Bool.eq_false_iff.mp good)
  rw [if_neg badUsed] at result
  cases result
  obtain ⟨rrs, same, records⟩ := parseRrs_ok parsed good
  exact ⟨Bool.eq_false_iff.mpr bad, rrs, same, records, rfl⟩

theorem parseRr_total (q : Packet) (count off : Nat) :
    ∃ result, Returns (fun fuel => parseRr q fuel count off) result := by
  unfold parseRr
  by_cases bad : isBadParse off = true
  · simp only [bad, if_true]
    exact ⟨_, .pure⟩
  obtain ⟨used, parsed⟩ := parseRrs_total q count off
  simp only [bad]
  refine parsed.exists_bind ?_
  by_cases badUsed : isBadParse used = true
  · simp only [badUsed, if_true]
    exact ⟨_, .pure⟩
  · simp only [badUsed]
    exact ⟨_, .pure⟩

/-! ### The first pass -/

theorem parseSections_eq (layout : Layout q) :
    Returns (parseSections q) (layout.addlEnd, layout.pkt) := by
  have inside : dnsHdrSize ≤ q.len := by
    rcases parseHdr_total q with failed | ⟨_, _, inside⟩
    · rw [layout.header] at failed
      exact absurd (Prod.mk.inj (Except.ok.inj failed)).1 (by decide)
    · exact inside
  unfold parseSections
  rw [layout.header]
  have question := parseQstn_eq inside layout.named layout.typed layout.classed
  have answers := parseRr_eq layout.question_le layout.answers
  have authorities := parseRr_eq layout.ansEnd_le layout.authorities
  have additionals := parseRr_eq layout.authEnd_le layout.additionals
  rw [layout.qdcount] at question
  rw [layout.ancount] at answers
  rw [layout.nscount] at authorities
  rw [layout.arcount] at additionals
  exact Returns.pure.bind (question.bind (answers.bind (authorities.bind (additionals.bind .pure))))

theorem parseSections_ok {fuel used : Nat} {pkt : DnsPkt}
    (result : parseSections q fuel = .ok (used, pkt)) (good : isBadParse used = false) :
    ∃ layout : Layout q, used = layout.addlEnd ∧ pkt = layout.pkt := by
  obtain ⟨⟨used1, hdr⟩, header, result⟩ := ok_bind result
  obtain ⟨⟨used2, qstn⟩, asked, result⟩ := ok_bind result
  obtain ⟨⟨ansEnd, _⟩, answered, result⟩ := ok_bind result
  obtain ⟨⟨authEnd, _⟩, authorized, result⟩ := ok_bind result
  obtain ⟨⟨addlEnd, _⟩, added, result⟩ := ok_bind result
  obtain ⟨rfl, rfl⟩ := Prod.mk.inj (Except.ok.inj result)
  obtain ⟨good, addl, arcount, additionals, rfl⟩ := parseRr_ok added good
  obtain ⟨good, auth, nscount, authorities, rfl⟩ := parseRr_ok authorized good
  obtain ⟨good, ans, ancount, answers, rfl⟩ := parseRr_ok answered good
  obtain ⟨good, names, namesEnd, qtype, qclass, qdcount, named, typed, classed, rfl, rfl⟩ :=
    parseQstn_ok asked good
  rcases parseHdr_total q with failed | ⟨_, found, _⟩
  · obtain ⟨rfl, -⟩ := Prod.mk.inj (Except.ok.inj (header.symm.trans failed))
    exact nomatch good
  cases header.symm.trans found
  exact ⟨⟨hdr, names, namesEnd, qtype, qclass, ans, ansEnd, auth, authEnd, addl, addlEnd, header,
    named, qdcount, typed, classed, answers, ancount, authorities, nscount, additionals, arcount⟩,
    rfl, rfl⟩

theorem parseSections_total (q : Packet) : ∃ result, Returns (parseSections q) result := by
  have header : ∃ result, parseHdr q 0 = .ok result := by
    rcases parseHdr_total q with failed | ⟨_, found, _⟩
    · exact ⟨_, failed⟩
    · exact ⟨_, found⟩
  obtain ⟨⟨used1, hdr⟩, header⟩ := header
  obtain ⟨⟨used2, qstn⟩, question⟩ := parseQstn_total q hdr.qdcount used1
  obtain ⟨⟨ansEnd, ans⟩, answers⟩ := parseRr_total q hdr.ancount used2
  obtain ⟨⟨authEnd, auth⟩, authorities⟩ := parseRr_total q hdr.nscount ansEnd
  obtain ⟨⟨addlEnd, addl⟩, additionals⟩ := parseRr_total q hdr.arcount authEnd
  unfold parseSections
  rw [header]
  exact ⟨_, Returns.pure.bind (question.bind (answers.bind (authorities.bind
    (additionals.bind .pure))))⟩

theorem parseSections_persists : Persists (parseSections q) := by
  have sections : ∀ count off, Persists fun fuel => parseRr q fuel count off := fun count off =>
    .ite (.const _) ((parseRrs_persists count off).bind fun used => .ite (.const _) (.const _))
  have question : ∀ count off, Persists fun fuel => parseQstn q fuel count off := fun count off =>
    .ite (.const _) ((parseNames_persists count off).bind fun used =>
      .ite (.const _) (.ite (.const _) (.const _)))
  exact (Persists.const _).bind fun header => (question _ _).bind fun asked =>
    (sections _ _).bind fun answered => (sections _ _).bind fun authorized =>
      (sections _ _).bind fun added => .const _

theorem parseSections_bad (none : IsEmpty (Layout q)) :
    ∃ used pkt, isBadParse used = true ∧ Returns (parseSections q) (used, pkt) := by
  obtain ⟨⟨used, pkt⟩, returns⟩ := parseSections_total q
  refine ⟨used, pkt, ?_, returns⟩
  by_contra good
  obtain ⟨fuel, result⟩ := returns.exists_fuel
  obtain ⟨layout, -⟩ := parseSections_ok result (Bool.eq_false_iff.mpr good)
  exact none.false layout

end Dns

end Splintermail
