/-
This file proves that the DNS server ends and reads only what it has received on a packet whose
iterators start where the first pass has been.

The iterators look neither at the length nor for loops. The records of a section are printed
as they are if none of them but the last one has data, and a name is read where the question
would be, also if there is no question.
-/

import Splintermail.Dns.Enumeration
import Splintermail.Dns.Compression

namespace Splintermail

open List

namespace Dns

variable {q : Packet} {pkt : DnsPkt} {Value Result : Type}

/-! ### Faults of reading -/

/-- A loop without end, or a read outside of the packet. -/
def ReadFault.OfReading : ReadFault → Prop
  | .hang => True
  | .overread _ => True
  | .overrun => False
  | .fatal => False

/-- No fault is one of reading. -/
def ReadsInside (outcome : Except ReadFault Value) : Prop :=
  ∀ fault, outcome = .error fault → ¬fault.OfReading

/-- With enough fuel the program ends, without a read outside of the packet. -/
def Safe (run : Nat → Except ReadFault Value) : Prop :=
  ∃ outcome, Yields run outcome ∧ ReadsInside outcome

theorem ReadsInside.ok (value : Value) : ReadsInside (.ok value : Except ReadFault Value) :=
  fun _ same => nomatch same

theorem Safe.const {outcome : Except ReadFault Value} (inside : ReadsInside outcome) :
    Safe fun _ => outcome :=
  ⟨outcome, .const outcome, inside⟩

theorem Safe.ite {condition : Prop} [Decidable condition]
    {first second : Nat → Except ReadFault Value} (one : Safe first) (other : Safe second) :
    Safe fun fuel => if condition then first fuel else second fuel := by
  by_cases met : condition
  · simp only [met, if_true]
    exact one
  · simp only [met, if_false]
    exact other

/-! ### When the log can be written -/

variable {labels : List Lstr}

theorem foldlM_readBytes (inside : ∀ l ∈ labels, l.off + l.len ≤ q.len) :
    labels.foldlM (fun (_ : Unit) l => do
      let _ ← q.readBytes l.off l.len
      return ()) () = .ok () := by
  induction labels with
  | nil => rfl
  | cons l labels ih =>
    rw [foldlM_cons, readBytes_eq (inside l mem_cons_self)]
    exact ih fun other mem => inside other (.tail _ mem)

theorem fmtLabels_eq {start : Nat} (name : Name q start labels) :
    ∃ last, Returns (fun fuel => fmtLabels q fuel start) last ∧ NameEnd q start last.used := by
  obtain ⟨last, returns, stops⟩ :=
    forLabels_eq name (tracks_start start) (foldlM_readBytes name.inside)
  exact ⟨last, returns.bind .pure, stops⟩

theorem fmtQstn_eq {off stop : Nat} {names : List (List Lstr)} (named : Names q off names stop) :
    Returns (fun fuel => fmtQstn q fuel names.length off) () := by
  induction named with
  | nil => exact .pure
  | cons valid _ ih =>
    obtain ⟨last, returns, stops⟩ := fmtLabels_eq valid.name
    refine returns.bind ?_
    rw [stops.unique valid.stops]
    exact ih

/-- What is printed of a record. -/
def fmtOneRr (q : Packet) (fuel : Nat) (_ : Unit) (rr : Rr) : Except ReadFault Unit := do
  let _ ← fmtLabels q fuel rr.nameoff
  let _ ← q.readBytes rr.rdoff rr.rdlen

/-- No record but the last one has data. -/
def Bare (rrs : List Rr) : Prop := ∀ rr ∈ rrs.dropLast, rr.rdlen = 0

theorem Bare.headers {off stop : Nat} {rrs : List Rr} (bare : Bare rrs)
    (records : Records q off rrs stop) : ∃ last, Headers q off rrs last :=
  records.headers_iff.mpr bare

theorem Records.each {off stop : Nat} {rrs : List Rr} (records : Records q off rrs stop) :
    ∀ rr ∈ rrs, ∃ labels used, ValidName q rr.nameoff labels used ∧
      readRrHdr q rr.nameoff used = .ok rr ∧ rr.rdoff + rr.rdlen ≤ q.len := by
  induction records with
  | nil => exact nofun
  | cons valid header inside _ ih =>
    intro other mem
    rcases mem_cons.mp mem with rfl | mem
    · obtain ⟨-, same, -⟩ := readRrHdr_ok header
      rw [← same] at valid header
      exact ⟨_, _, valid, header, inside⟩
    · exact ih other mem

theorem Records.print {off stop : Nat} {rrs : List Rr} (records : Records q off rrs stop) :
    Returns (fun fuel => rrs.foldlM (fmtOneRr q fuel) ()) () := by
  have each := records.each
  clear records
  induction rrs with
  | nil => exact .pure
  | cons rr rrs ih =>
    obtain ⟨labels, used, valid, -, inside⟩ := each rr mem_cons_self
    obtain ⟨last, returns, -⟩ := fmtLabels_eq valid.name
    have one : Returns (fun fuel => fmtOneRr q fuel () rr) () := by
      refine returns.bind ?_
      rw [readBytes_eq inside]
      exact .pure
    exact one.bind (ih fun other mem => each other (.tail _ mem))

theorem Records.fmtRr_eq {off last stop : Nat} {rrs : List Rr} (records : Records q off rrs last)
    (bare : Bare rrs) : Returns (fun fuel => fmtRr q fuel (section' off stop rrs.length)) () := by
  obtain ⟨_, headers⟩ := bare.headers records
  obtain ⟨some, printed⟩ := records.print
  obtain ⟨more, looped⟩ := @forRrs_eq q Unit (dnsRrIter (section' off stop rrs.length)) _ _ headers
    (Nat.zero_add _)
  exact ⟨max some more, fun fuel enough => looped fuel (by omega) (printed fuel (by omega))⟩

theorem fmtOpts_eq {len used count : Nat} {last : OptsEnd} (options : Options q len used count last)
    (inside : len ≤ q.len) : fmtOpts q count used = .ok () := by
  induction options with
  | exact => rfl
  | hdrOverrun _ _ => rfl
  | dataOverrun _ _ _ => rfl
  | @option used optlen count last room got fits _ ih =>
    obtain ⟨code, first⟩ := @read16_eq q used (by omega)
    have data := @readBytes_eq q (used + 4) optlen (by omega)
    unfold fmtOpts
    rw [first, got]
    show (q.readBytes (used + 4) optlen >>= _) = _
    rw [data]
    exact ih

theorem Accepted.fmtPkt_eq (accepted : Accepted q pkt) (layout : Layout q)
    (bare : Bare layout.ans ∧ Bare layout.auth) (bareAddl : Bare layout.addl) :
    Returns (fun fuel => fmtPkt q fuel pkt) () := by
  obtain ⟨rrs, stop, headers, all, parsed⟩ := accepted.of_layout layout
  have qstn := fmtQstn_eq layout.named
  have ans := @Records.fmtRr_eq q _ _ layout.ansEnd _ layout.answers bare.1
  have auth := @Records.fmtRr_eq q _ _ layout.authEnd _ layout.authorities bare.2
  have addl := @Records.fmtRr_eq q _ _ layout.addlEnd _ layout.additionals bareAddl
  rw [layout.qdcount] at qstn
  rw [layout.ancount] at ans
  rw [layout.nscount] at auth
  rw [layout.arcount] at addl
  unfold fmtPkt
  rcases parsed with ⟨none, rfl⟩ | ⟨rr, count, one, ⟨_, last, _, options⟩, rfl⟩
  · exact qstn.bind (ans.bind (auth.bind (addl.bind .pure)))
  · refine qstn.bind (ans.bind (auth.bind (addl.bind ?_)))
    obtain ⟨_, headers'⟩ := bareAddl.headers layout.additionals
    obtain ⟨rfl, -⟩ := headers.unique headers' (all.trans layout.arcount.symm)
    have mem : rr ∈ layout.addl := mem_of_mem_filter
      (show rr ∈ ednsOf layout.addl by rw [one]; exact mem_singleton_self rr)
    obtain ⟨_, _, -, -, inside⟩ := layout.additionals.each rr mem
    exact ⟨0, fun _ _ => fmtOpts_eq options inside⟩

/-! ### The response -/

/-- A writer that does not read. -/
def Writer.ReadsInside (writer : Writer) : Prop :=
  ∀ arg nameoff cap out, Dns.ReadsInside (writer arg nameoff cap out)

theorem ReadsInside.ite {condition : Prop} [Decidable condition]
    {first second : Except ReadFault Value} (one : ReadsInside first) (other : ReadsInside second) :
    ReadsInside (if condition then first else second) := by
  split
  · exact one
  · exact other

theorem ReadsInside.fatal : ReadsInside (.error .fatal : Except ReadFault Value) := by
  intro fault same
  obtain rfl := Except.error.inj same
  exact id

theorem ReadsInside.bind {first : Except ReadFault Value} {next : Value → Except ReadFault Result}
    (inside : ReadsInside first) (others : ∀ value, ReadsInside (next value)) :
    ReadsInside (first >>= next) := by
  cases first with
  | ok value => exact others value
  | error fault => exact fun other same => inside other (congrArg _ (Except.error.inj same))

theorem readsInside_writeSoa : Writer.ReadsInside writeSoa := fun _ _ _ _ => .ite (.ok _) (.ok _)
theorem readsInside_writeA : Writer.ReadsInside writeA := fun _ _ _ _ => .ite (.ok _) (.ok _)
theorem readsInside_writeNs1 : Writer.ReadsInside writeNs1 := fun _ _ _ _ => .ite (.ok _) (.ok _)
theorem readsInside_writeNs2 : Writer.ReadsInside writeNs2 := fun _ _ _ _ => .ite (.ok _) (.ok _)
theorem readsInside_writeAaaa : Writer.ReadsInside writeAaaa := fun _ _ _ _ => .ite (.ok _) (.ok _)
theorem readsInside_writeCaa : Writer.ReadsInside writeCaa := fun _ _ _ _ => .ite (.ok _) (.ok _)

theorem readsInside_writeSecret : Writer.ReadsInside writeSecret :=
  fun _ _ _ _ => .ite (.ok _) (.ite .fatal (.ok _))

theorem readsInside_writeAll {writers : List Writer}
    (each : ∀ writer ∈ writers, writer.ReadsInside) (arg : Bytes) (cap : Nat) (out : Out)
    (len ancount : Nat) : ReadsInside (writeAll arg cap writers out len ancount) := by
  induction writers generalizing out len ancount with
  | nil => exact .ok _
  | cons writer writers ih =>
    have rest := ih fun other mem => each other (.tail _ mem)
    exact (each writer mem_cons_self _ _ _ _).bind fun out => .ite (rest _ _ _) (rest _ _ _)

section Responses

variable {labels : List Lstr} (single : pkt.qstn.qdcount = 1) (name : Name q pkt.qstn.off labels)
  (rbuf : Nat → UInt8) (cap : Nat)

include single name

theorem negativeResp_safe (rcode : Nat) (aa soa : Bool) :
    Safe fun fuel => negativeResp q fuel pkt rcode aa soa rbuf cap := by
  refine ⟨_, (writeQstn_returns _ _ single name).yields (.const _), ?_⟩
  dsimp only
  refine .ite ?_ (.ok _)
  exact (readsInside_writeSoa _ _ _ _).bind fun _ => .ite (.ok _) (.ok _)

theorem positiveResp_safe {writers : List Writer} (each : ∀ writer ∈ writers, writer.ReadsInside)
    (arg : Bytes) : Safe fun fuel => positiveResp q fuel writers arg pkt rbuf cap := by
  refine ⟨_, (writeQstn_returns _ _ single name).yields (.const _), ?_⟩
  exact (readsInside_writeAll each _ _ _ _ _).bind fun _ => .ok _

theorem positiveResp_safe_one {writer : Writer} (inside : writer.ReadsInside) (arg : Bytes) :
    Safe fun fuel => positiveResp q fuel [writer] arg pkt rbuf cap := by
  refine positiveResp_safe single name rbuf cap (fun other mem => ?_) arg
  rwa [mem_singleton.mp mem]

theorem respond_safe (secret : Lookup) (chosen : Respond) :
    Safe fun fuel => respond q fuel pkt rbuf cap secret chosen := by
  have negative := negativeResp_safe single name rbuf cap
  have one := @positiveResp_safe_one q pkt labels single name rbuf cap
  cases chosen with
  | norespond => exact ⟨_, .const _, .ok _⟩
  | notimpl => exact negative _ _ _
  | nameError => exact negative _ _ _
  | root =>
    have both : Safe fun fuel => positiveResp q fuel [writeNs1, writeNs2] [] pkt rbuf cap := by
      refine positiveResp_safe single name rbuf cap (fun writer mem => ?_) _
      rcases mem_cons.mp mem with rfl | mem
      · exact readsInside_writeNs1
      · rw [mem_singleton.mp mem]
        exact readsInside_writeNs2
    exact Safe.ite (one readsInside_writeSoa []) (.ite both
      (.ite (one readsInside_writeCaa []) (negative rcodeOk true true)))
  | user =>
    exact Safe.ite (one readsInside_writeA []) (.ite (one readsInside_writeAaaa [])
      (.ite (one readsInside_writeCaa []) (negative rcodeOk true true)))
  | acme =>
    refine Safe.ite (negative rcodeOk true true) ?_
    cases secret with
    | absent => exact negative _ _ _
    | unsure => exact negative _ _ _
    | found bytes => exact one readsInside_writeSecret bytes

end Responses

/-! ### Queries -/

variable {iget : Bytes → Lookup} {log : Bool} {rbuf : Nat → UInt8} {rcap : Nat}

theorem handlePacket_safe (accepted : Accepted q pkt) (name : Name q dnsHdrSize labels)
    (big : 512 ≤ rcap) (logged : log = true → Returns (fun fuel => fmtPkt q fuel pkt) ()) :
    Safe (handlePacket q log iget rbuf rcap) := by
  have name' : Name q pkt.qstn.off labels := by rwa [accepted.off]
  have responded : Safe fun fuel => respond q fuel pkt rbuf (pkt.cap rcap)
      (pkt.secret (texts q labels) iget) (pkt.chosen (texts q labels)) := by
    by_cases silent : pkt.chosen (texts q labels) = .norespond
    · rw [silent]
      exact .const (.ok _)
    · have single := accepted.qdcount.trans (sortNames_single silent)
      exact respond_safe single name' rbuf _ _ _
  obtain ⟨outcome, yields, inside⟩ := responded
  exact ⟨_, handlePacket_yields accepted name big logged (yields.then _),
    inside.bind fun _ => .ok _⟩

theorem handlePacket_small (small : rcap < 512) : Safe (handlePacket q log iget rbuf rcap) := by
  unfold handlePacket
  simp only [small, if_true]
  exact .const (.ok _)

theorem Rejected.safe (rejected : Rejected q) : Safe (handlePacket q log iget rbuf rcap) := by
  by_cases small : rcap < 512
  · exact handlePacket_small small
  obtain ⟨ret, pkt, bad, returns⟩ := parsePkt_rejects rejected
  refine ⟨.ok { len := 0, rbuf }, ?_, .ok _⟩
  unfold handlePacket
  simp only [small, if_false]
  refine returns.yields ?_
  simp only [bad, if_true]
  exact .const _

/-! ### A query without a question -/

/-- A query without a question, and a pointer to itself where its name would be. -/
def noQuestion : Packet where
  bytes := [0, 7, 0, 0, 0, 0, 0, 0, 0, 0, 0, 0, 0xC0, 12, 0, 1]
  fits := by decide

def noQuestionLayout : Layout noQuestion where
  hdr := { id := 7 }
  names := []
  namesEnd := 12
  qtype := 0xC00C
  qclass := 1
  ans := []
  ansEnd := 16
  auth := []
  authEnd := 16
  addl := []
  addlEnd := 16
  header := by rfl
  named := .nil
  qdcount := length_nil
  typed := rfl
  classed := rfl
  answers := .nil
  ancount := length_nil
  authorities := .nil
  nscount := length_nil
  additionals := .nil
  arcount := length_nil

theorem labelsNext_noQuestion (it : Labels) (here : it.pos = dnsHdrSize) (fuel : Nat) :
    labelsNext noQuestion fuel it = .error .hang := by
  induction fuel generalizing it with
  | zero => rfl
  | succ fuel ih =>
    have first : noQuestion.bytes[it.pos]? = some 0xC0 := by
      rw [here]
      rfl
    have second : noQuestion.bytes[it.pos + 1]? = some 12 := by
      rw [here]
      rfl
    rw [labelsNext_pointer first (by decide) second]
    exact ih _ rfl

theorem accepted_noQuestion : Accepted noQuestion noQuestionLayout.pkt :=
  ⟨noQuestionLayout, [], 16, .nil, rfl, .inl ⟨rfl, rfl⟩⟩

/-- The server never ends on it. -/
theorem not_safe_noQuestion :
    ¬Safe (handlePacket noQuestion false (fun _ => .absent) (fun _ => 0) 512) := by
  rintro ⟨outcome, ⟨enough, ends⟩, inside⟩
  obtain ⟨more, parsed⟩ := parsePkt_accepts accepted_noQuestion
  have result := ends (max enough more + 1) (by omega)
  unfold handlePacket at result
  rw [parsed (max enough more + 1) (by omega)] at result
  have walked : labelsReadReverse noQuestion (max enough more + 1) dnsHdrSize (replicate 6 {}) =
      .error .hang := by
    unfold labelsReadReverse
    rw [forLabels_succ, labelsNext_noQuestion _ rfl]
    rfl
  change (labelsReadReverse noQuestion (max enough more + 1) dnsHdrSize (replicate 6 {}) >>= _) = _
    at result
  rw [walked] at result
  exact inside .hang result.symm trivial

end Dns

end Splintermail
