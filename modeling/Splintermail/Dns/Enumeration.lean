/-
This file proves when the records and options of an accepted packet are seen as they are.

The parser and the iterators disagree if a record other than the last one of its section has
data, and the parser does not notice an option that is longer than the data it is in. Of
the packets for which neither is the case, the server sees what they say.
-/

import Splintermail.Dns.Walk

namespace Splintermail

open List

namespace Dns

variable {q : Packet} {pkt : DnsPkt}

theorem Layout.pkt_eq (layout other : Layout q) : layout.pkt = other.pkt :=
  (Prod.mk.inj ((parseSections_eq layout).unique (parseSections_eq other))).2

theorem Layout.additional_eq (layout other : Layout q) :
    layout.authEnd = other.authEnd ∧ layout.hdr = other.hdr :=
  ⟨congrArg (·.addl.off) (layout.pkt_eq other), congrArg (·.hdr) (layout.pkt_eq other)⟩

/-- What was accepted, in terms of any layout. -/
theorem Accepted.of_layout (accepted : Accepted q pkt) (layout : Layout q) :
    ∃ rrs stop, Headers q layout.authEnd rrs stop ∧ rrs.length = layout.hdr.arcount ∧
      (ednsOf rrs = [] ∧ pkt = layout.pkt ∨
        ∃ rr count, ednsOf rrs = [rr] ∧ EdnsGood q rr count ∧
          pkt = { layout.pkt with edns := ednsOfRr rr count }) := by
  obtain ⟨other, accepted⟩ := accepted
  obtain ⟨start, hdr⟩ := other.additional_eq layout
  rw [start, hdr, other.pkt_eq layout] at accepted
  exact accepted

theorem accepted_of_returns (returns : Returns (parsePkt q) (0, pkt)) : Accepted q pkt := by
  obtain ⟨fuel, result⟩ := returns.exists_fuel
  rcases parsePkt_ok result with ⟨bad, _⟩ | ⟨_, accepted⟩
  · exact nomatch bad
  · exact accepted

/-- The sections of an accepted packet. -/
theorem Accepted.sections (accepted : Accepted q pkt) (layout : Layout q) :
    pkt.hdr = layout.hdr ∧ pkt.qstn = layout.pkt.qstn ∧
      pkt.ans = section' (layout.namesEnd + 4) layout.ansEnd layout.ans.length ∧
      pkt.auth = section' layout.ansEnd layout.authEnd layout.auth.length ∧
      pkt.addl = section' layout.authEnd layout.addlEnd layout.addl.length := by
  rw [layout.ancount, layout.nscount, layout.arcount]
  obtain ⟨_, _, _, _, ⟨_, rfl⟩ | ⟨_, _, _, _, rfl⟩⟩ := accepted.of_layout layout
  · exact ⟨rfl, rfl, rfl, rfl, rfl⟩
  · exact ⟨rfl, rfl, rfl, rfl, rfl⟩

/-- The server sees the records of a packet: its iterators yield those of each section, EDNS is
found if one additional record is of that type, there is no second one, and its data is a
sequence of options. -/
structure Enumerated (q : Packet) (layout : Layout q) (pkt : DnsPkt) : Prop where
  answers : Returns (fun fuel => rrsList q fuel pkt.ans) layout.ans
  authorities : Returns (fun fuel => rrsList q fuel pkt.auth) layout.auth
  additionals : Returns (fun fuel => rrsList q fuel pkt.addl) layout.addl
  found : pkt.edns.found = true ↔ (ednsOf layout.addl).length = 1
  single : (ednsOf layout.addl).length ≤ 1
  options : ∀ rr ∈ ednsOf layout.addl,
    ∃ count, Options q (rr.rdoff + rr.rdlen) rr.rdoff count .exact

/-- No record but the last one of its section has data, and no option declares more data than its
record has left. -/
structure Plain (q : Packet) (layout : Layout q) : Prop where
  answers : ∀ rr ∈ layout.ans.dropLast, rr.rdlen = 0
  authorities : ∀ rr ∈ layout.auth.dropLast, rr.rdlen = 0
  additionals : ∀ rr ∈ layout.addl.dropLast, rr.rdlen = 0
  options : ∀ rr ∈ ednsOf layout.addl,
    ¬∃ count, Options q (rr.rdoff + rr.rdlen) rr.rdoff count .dataOverrun

theorem Plain.enumerated {layout : Layout q} (plain : Plain q layout)
    (accepted : Accepted q pkt) : Enumerated q layout pkt := by
  obtain ⟨_, _, ans, auth, addl⟩ := accepted.sections layout
  obtain ⟨last, headers⟩ := layout.additionals.headers_iff.mpr plain.additionals
  obtain ⟨rrs, stop, walked, all, parsed⟩ := accepted.of_layout layout
  obtain ⟨rfl, -⟩ := walked.unique headers (all.trans layout.arcount.symm)
  have answers := (@rrsList_iff q _ layout.ansEnd _).mpr
    (layout.answers.headers_iff.mpr plain.answers)
  have authorities := (@rrsList_iff q _ layout.authEnd _).mpr
    (layout.authorities.headers_iff.mpr plain.authorities)
  have additionals := (@rrsList_iff q _ layout.addlEnd _).mpr ⟨last, headers⟩
  rw [← ans] at answers
  rw [← auth] at authorities
  rw [← addl] at additionals
  rcases parsed with ⟨none, rfl⟩ | ⟨rr, count, one, ⟨_, end', fine, options⟩, rfl⟩
  · refine ⟨answers, authorities, additionals, ?_, ?_, ?_⟩
    · rw [none]
      exact ⟨fun found => (nomatch found), fun one => (nomatch one)⟩
    · rw [none]
      exact Nat.zero_le 1
    · rw [none]
      exact nofun
  · refine ⟨answers, authorities, additionals, ?_, ?_, fun other mem => ?_⟩
    · rw [one]
      exact ⟨fun _ => rfl, fun _ => rfl⟩
    · rw [one]
      exact Nat.le_refl 1
    · have noOverrun := plain.options other mem
      rw [one] at mem
      obtain rfl := mem_singleton.mp mem
      cases end' with
      | exact => exact ⟨count, options⟩
      | hdrOverrun => exact absurd rfl fine
      | dataOverrun => exact absurd ⟨count, options⟩ noOverrun

theorem Enumerated.plain {layout : Layout q} (enumerated : Enumerated q layout pkt)
    (accepted : Accepted q pkt) : Plain q layout := by
  obtain ⟨_, _, ans, auth, addl⟩ := accepted.sections layout
  obtain ⟨answers, authorities, additionals, _, _, options⟩ := enumerated
  rw [ans] at answers
  rw [auth] at authorities
  rw [addl] at additionals
  refine ⟨layout.answers.headers_iff.mp (rrsList_iff.mp answers),
    layout.authorities.headers_iff.mp (rrsList_iff.mp authorities),
    layout.additionals.headers_iff.mp (rrsList_iff.mp additionals), fun rr mem => ?_⟩
  rintro ⟨count, overrun⟩
  obtain ⟨_, whole⟩ := options rr mem
  exact nomatch (whole.unique overrun).2

/-- An accepted packet has a layout, and the server sees its records if and only if it is plain. -/
theorem enumerated_iff (returns : Returns (parsePkt q) (0, pkt)) :
    Nonempty (Layout q) ∧ ∀ layout : Layout q, Enumerated q layout pkt ↔ Plain q layout := by
  have accepted := accepted_of_returns returns
  have ⟨first, _⟩ := accepted
  exact ⟨⟨first⟩, fun layout => ⟨fun enumerated => enumerated.plain accepted,
    fun plain => plain.enumerated accepted⟩⟩

/-! ### Two packets -/

theorem validName_root {off : Nat} (zero : q.bytes[off]? = some 0) : ValidName q off [] (off + 1) :=
  ⟨.root zero, .root zero, by decide⟩

/-- A question on the root, with two answers that have no data. -/
def bareAnswers : Packet where
  bytes := [0, 7, 0, 0, 0, 1, 0, 2, 0, 0, 0, 0, 0, 0, 1, 0, 1,
    0, 0, 1, 0, 1, 0, 0, 0, 0, 0, 0, 0, 0, 1, 0, 1, 0, 0, 0, 0, 0, 0]
  fits := by decide

def bareAnswersLayout : Layout bareAnswers where
  hdr := { id := 7, qdcount := 1, ancount := 2 }
  names := [[]]
  namesEnd := 13
  qtype := 1
  qclass := 1
  ans := [⟨17, 1, 1, 0, 0, 28⟩, ⟨28, 1, 1, 0, 0, 39⟩]
  ansEnd := 39
  auth := []
  authEnd := 39
  addl := []
  addlEnd := 39
  header := by rfl
  named := .cons (validName_root rfl) .nil
  qdcount := rfl
  typed := rfl
  classed := rfl
  answers := .cons (validName_root rfl) rfl (by decide)
    (.cons (validName_root rfl) rfl (by decide) .nil)
  ancount := rfl
  authorities := .nil
  nscount := length_nil
  additionals := .nil
  arcount := length_nil

theorem enumerated_bareAnswers :
    Enumerated bareAnswers bareAnswersLayout bareAnswersLayout.pkt := by
  have accepted : Returns (parsePkt bareAnswers) (0, bareAnswersLayout.pkt) :=
    parsePkt_accepts ⟨bareAnswersLayout, [], 39, .nil, rfl, .inl ⟨rfl, rfl⟩⟩
  refine ((enumerated_iff accepted).2 bareAnswersLayout).mpr ⟨?_, ?_, ?_, ?_⟩
  · decide
  · decide
  · decide
  · exact nofun

/-- A question on the root, with two answers of which the first one has a byte of data. -/
def fullAnswers : Packet where
  bytes := [0, 7, 0, 0, 0, 1, 0, 2, 0, 0, 0, 0, 0, 0, 1, 0, 1,
    0, 0, 1, 0, 1, 0, 0, 0, 0, 0, 1, 0, 0, 0, 1, 0, 1, 0, 0, 0, 0, 0, 0]
  fits := by decide

def fullAnswersLayout : Layout fullAnswers where
  hdr := { id := 7, qdcount := 1, ancount := 2 }
  names := [[]]
  namesEnd := 13
  qtype := 1
  qclass := 1
  ans := [⟨17, 1, 1, 0, 1, 28⟩, ⟨29, 1, 1, 0, 0, 40⟩]
  ansEnd := 40
  auth := []
  authEnd := 40
  addl := []
  addlEnd := 40
  header := by rfl
  named := .cons (validName_root rfl) .nil
  qdcount := rfl
  typed := rfl
  classed := rfl
  answers := .cons (validName_root rfl) rfl (by decide)
    (.cons (validName_root rfl) rfl (by decide) .nil)
  ancount := rfl
  authorities := .nil
  nscount := length_nil
  additionals := .nil
  arcount := length_nil

/-- The second answer is not seen where it is. -/
theorem not_enumerated_fullAnswers :
    Returns (parsePkt fullAnswers) (0, fullAnswersLayout.pkt) ∧
      ¬Enumerated fullAnswers fullAnswersLayout fullAnswersLayout.pkt := by
  refine ⟨parsePkt_accepts ⟨fullAnswersLayout, [], 40, .nil, rfl, .inl ⟨rfl, rfl⟩⟩, ?_⟩
  intro enumerated
  have answers : Returns (fun fuel => rrsList fullAnswers fuel
      (section' 17 40 fullAnswersLayout.ans.length)) fullAnswersLayout.ans := enumerated.answers
  have bare := fullAnswersLayout.answers.headers_iff.mp (rrsList_iff.mp answers)
  exact absurd (bare _ mem_cons_self) (by decide)

end Dns

end Splintermail
