/-
This file proves that it makes no difference to the DNS server how the name of a question is
compressed: what it answers and what it looks up depends on the labels alone.
-/

import Splintermail.Dns.Handling

namespace Splintermail

open List

namespace Dns

variable {q q₁ q₂ : Packet} {pkt pkt₁ pkt₂ : DnsPkt} {labels labels₁ labels₂ : List Lstr}

/-- The question written again, whether there is space or not. -/
theorem writeQstn_returns {qstn : DnsQstn} (cap : Nat) (out : Out) (single : qstn.qdcount = 1)
    (name : Name q qstn.off labels) :
    Returns (fun fuel => writeQstn q fuel qstn cap out)
      (if out.used + ((encodeName (texts q labels)).length + 4) ≤ cap then
        out.emit (questionBytes (texts q labels) qstn.qtype qstn.qclass)
      else skipped ((encodeName (texts q labels)).length + 4) out) := by
  rw [length_encodeName name.inside]
  by_cases room : out.used + (wireLen labels + 4) ≤ cap
  · rw [if_pos room]
    exact writeQstn_eq single name room
  rw [if_neg room]
  unfold writeQstn
  simp only [single, ne_eq, not_true_eq_false, if_false]
  obtain ⟨_, counted, -⟩ := forLabels_eq name (tracks_start _) (foldlM_needed 5)
  refine counted.bind ?_
  have needed : 5 + (labels.map (·.len + 1)).sum = wireLen labels + 4 := by
    unfold wireLen
    omega
  simp only [needed, Nat.lt_of_not_le room, if_true]
  exact .pure

/-- Two packets that ask the same. -/
structure SameQuery (q₁ q₂ : Packet) (pkt₁ pkt₂ : DnsPkt) (labels₁ labels₂ : List Lstr) : Prop where
  hdr : pkt₁.hdr = pkt₂.hdr
  qtype : pkt₁.qstn.qtype = pkt₂.qstn.qtype
  qclass : pkt₁.qstn.qclass = pkt₂.qstn.qclass
  found : pkt₁.edns.found = pkt₂.edns.found
  udpSize : pkt₁.edns.udpSize = pkt₂.edns.udpSize
  labels : texts q₁ labels₁ = texts q₂ labels₂

/-- Both give the same outcome. -/
def Agree {Value : Type} (first second : Nat → Except ReadFault Value) : Prop :=
  ∃ outcome, Yields first outcome ∧ Yields second outcome

section Responses

variable (same : SameQuery q₁ q₂ pkt₁ pkt₂ labels₁ labels₂) (single₁ : pkt₁.qstn.qdcount = 1)
  (single₂ : pkt₂.qstn.qdcount = 1) (name₁ : Name q₁ pkt₁.qstn.off labels₁)
  (name₂ : Name q₂ pkt₂.qstn.off labels₂) (rbuf : Nat → UInt8) (cap : Nat)

include same

theorem finishResp_agree (rcode : Nat) (aa : Bool) (ancount nscount len : Nat) (out : Out) :
    finishResp pkt₁ rcode aa ancount nscount cap len out =
      finishResp pkt₂ rcode aa ancount nscount cap len out := by
  unfold finishResp
  rw [same.hdr, same.found]

include single₁ single₂ name₁ name₂

/-- Whatever follows the question agrees. -/
theorem afterQuestion_agree {Value : Type} (room : Nat) (out : Out)
    (next : Out → Except ReadFault Value) :
    Agree (fun fuel => writeQstn q₁ fuel pkt₁.qstn room out >>= next)
      (fun fuel => writeQstn q₂ fuel pkt₂.qstn room out >>= next) := by
  have first := writeQstn_returns room out single₁ name₁
  have second := writeQstn_returns room out single₂ name₂
  rw [same.labels, same.qtype, same.qclass] at first
  exact ⟨_, first.yields (.const _), second.yields (.const _)⟩

theorem negativeResp_agree (rcode : Nat) (aa soa : Bool) :
    Agree (fun fuel => negativeResp q₁ fuel pkt₁ rcode aa soa rbuf cap)
      (fun fuel => negativeResp q₂ fuel pkt₂ rcode aa soa rbuf cap) := by
  unfold negativeResp
  simp only [finishResp_agree same, same.found]
  exact afterQuestion_agree same single₁ single₂ name₁ name₂ _ _ _

theorem positiveResp_agree (writers : List Writer) (arg : Bytes) :
    Agree (fun fuel => positiveResp q₁ fuel writers arg pkt₁ rbuf cap)
      (fun fuel => positiveResp q₂ fuel writers arg pkt₂ rbuf cap) := by
  unfold positiveResp
  simp only [finishResp_agree same, same.found]
  exact afterQuestion_agree same single₁ single₂ name₁ name₂ _ _ _

theorem respond_agree (secret : Lookup) (chosen : Respond) :
    Agree (fun fuel => respond q₁ fuel pkt₁ rbuf cap secret chosen)
      (fun fuel => respond q₂ fuel pkt₂ rbuf cap secret chosen) := by
  have negative := negativeResp_agree same single₁ single₂ name₁ name₂ rbuf cap
  have positive := positiveResp_agree same single₁ single₂ name₁ name₂ rbuf cap
  cases chosen with
  | norespond => exact ⟨_, .const _, .const _⟩
  | notimpl => exact negative _ _ _
  | nameError => exact negative _ _ _
  | root =>
    unfold respond respondRoot
    simp only [same.qtype]
    split
    · exact positive _ _
    · split
      · exact positive _ _
      · split
        · exact positive _ _
        · exact negative _ _ _
  | user =>
    unfold respond respondUser
    simp only [same.qtype]
    split
    · exact positive _ _
    · split
      · exact positive _ _
      · split
        · exact positive _ _
        · exact negative _ _ _
  | acme =>
    unfold respond respondAcme
    simp only [same.qtype]
    split
    · exact negative _ _ _
    · cases secret with
      | absent => exact negative _ _ _
      | unsure => exact negative _ _ _
      | found bytes => exact positive _ _

end Responses

theorem SameQuery.chosen (same : SameQuery q₁ q₂ pkt₁ pkt₂ labels₁ labels₂) :
    pkt₁.chosen (texts q₁ labels₁) = pkt₂.chosen (texts q₂ labels₂) := by
  unfold DnsPkt.chosen
  rw [same.hdr, same.qtype, same.qclass, same.labels]

theorem SameQuery.asked (same : SameQuery q₁ q₂ pkt₁ pkt₂ labels₁ labels₂) :
    pkt₁.asked (texts q₁ labels₁) = pkt₂.asked (texts q₂ labels₂) := by
  unfold DnsPkt.asked
  rw [same.chosen, same.labels]

/-- Two accepted packets that ask the same are handled in the same way. -/
theorem handlePacket_agree (accepted₁ : Accepted q₁ pkt₁) (accepted₂ : Accepted q₂ pkt₂)
    (name₁ : Name q₁ dnsHdrSize labels₁) (name₂ : Name q₂ dnsHdrSize labels₂)
    (same : SameQuery q₁ q₂ pkt₁ pkt₂ labels₁ labels₂) (iget : Bytes → Lookup)
    (rbuf : Nat → UInt8) (rcap : Nat) :
    Agree (handlePacket q₁ false iget rbuf rcap) (handlePacket q₂ false iget rbuf rcap) := by
  by_cases small : rcap < 512
  · unfold handlePacket
    simp only [small, if_true]
    exact ⟨_, .const _, .const _⟩
  have big := Nat.le_of_not_lt small
  have secret : pkt₁.secret (texts q₁ labels₁) iget = pkt₂.secret (texts q₂ labels₂) iget := by
    unfold DnsPkt.secret
    rw [same.asked]
  have cap : pkt₁.cap rcap = pkt₂.cap rcap := by
    unfold DnsPkt.cap
    rw [same.found, same.udpSize]
  have responded : Agree
      (fun fuel => respond q₁ fuel pkt₁ rbuf (pkt₁.cap rcap) (pkt₁.secret (texts q₁ labels₁) iget)
        (pkt₁.chosen (texts q₁ labels₁)))
      (fun fuel => respond q₂ fuel pkt₂ rbuf (pkt₂.cap rcap) (pkt₂.secret (texts q₂ labels₂) iget)
        (pkt₂.chosen (texts q₂ labels₂))) := by
    rw [cap, secret, same.chosen]
    by_cases silent : pkt₂.chosen (texts q₂ labels₂) = .norespond
    · rw [silent]
      exact ⟨_, .const _, .const _⟩
    · have single₂ := sortNames_single silent
      have single₁ := single₂
      rw [← same.hdr] at single₁
      exact respond_agree same (accepted₁.qdcount.trans single₁) (accepted₂.qdcount.trans single₂)
        (by rwa [accepted₁.off]) (by rwa [accepted₂.off]) rbuf _ _ _
  obtain ⟨outcome, first, second⟩ := responded
  exact ⟨_, handlePacket_yields accepted₁ name₁ big nofun (same.asked ▸ first.then _),
    handlePacket_yields accepted₂ name₂ big nofun (second.then _)⟩

/-- Two accepted packets with the same header, question type and class, and EDNS, whose questions
have the same labels, have the same outcome, and it is a response. If they are also logged, they
are answered with the same bytes after the same lookup. The labels of a name that the parser
admits are read in reverse as they are. -/
theorem compression_invisible :
    (∀ (q₁ q₂ : Packet) (pkt₁ pkt₂ : DnsPkt) (labels₁ labels₂ : List Lstr),
      Returns (parsePkt q₁) (0, pkt₁) → Returns (parsePkt q₂) (0, pkt₂) →
      Name q₁ pkt₁.qstn.off labels₁ → Name q₂ pkt₂.qstn.off labels₂ →
      SameQuery q₁ q₂ pkt₁ pkt₂ labels₁ labels₂ →
      ∀ (iget : Bytes → Lookup) (rbuf : Nat → UInt8) (rcap : Nat),
        (∃ outcome, Yields (handlePacket q₁ false iget rbuf rcap) outcome ∧
          Yields (handlePacket q₂ false iget rbuf rcap) outcome ∧
          ((∀ user, (iget user).Short) → ∃ handled, outcome = .ok handled)) ∧
        ∀ log₁ log₂ handled₁ handled₂, Returns (handlePacket q₁ log₁ iget rbuf rcap) handled₁ →
          Returns (handlePacket q₂ log₂ iget rbuf rcap) handled₂ → handled₁ = handled₂) ∧
    ∀ (q : Packet) (fuel off stop : Nat), parseName q fuel off = .ok stop →
      isBadParse stop = false → ∃ labels, Name q off labels ∧ ∀ lstrs : List Lstr,
        Returns (fun fuel => labelsReadReverse q fuel off lstrs)
          (labels.length, labels.reverse.take lstrs.length ++ lstrs.drop labels.length) := by
  constructor
  · intro q₁ q₂ pkt₁ pkt₂ labels₁ labels₂ returns₁ returns₂ name₁ name₂ same iget rbuf rcap
    have accepted₁ := accepted_of_returns returns₁
    have accepted₂ := accepted_of_returns returns₂
    rw [accepted₁.off] at name₁
    rw [accepted₂.off] at name₂
    obtain ⟨outcome, first, second⟩ :=
      handlePacket_agree accepted₁ accepted₂ name₁ name₂ same iget rbuf rcap
    refine ⟨⟨outcome, first, second, fun short => ?_⟩, ?_⟩
    · by_cases small : rcap < 512
      · unfold handlePacket at first
        simp only [small, if_true] at first
        exact ⟨_, first.unique (.const _)⟩
      · exact ⟨_, first.unique (handlePacket_eq accepted₁ name₁ (Nat.le_of_not_lt small) short
          nofun)⟩
    · intro log₁ log₂ handled₁ handled₂ responded₁ responded₂
      have outcome₁ := first.unique (handlePacket_unlogged responded₁)
      have outcome₂ := second.unique (handlePacket_unlogged responded₂)
      exact Except.ok.inj (outcome₁.symm.trans outcome₂)
  · intro q fuel off stop result good
    obtain ⟨labels, valid⟩ := parseName_ok result good
    exact ⟨labels, valid.name, labelsReadReverse_eq valid.name⟩

/-! ### One question, written in two ways -/

/-- The header of a query with one question. -/
def oneQuestion : Bytes := [0, 7, 0, 0, 0, 1, 0, 0, 0, 0, 0, 0]

/-- user.splintermail.com, of type NS. -/
def plainQuestion : Packet where
  bytes := oneQuestion ++ (encodeName zoneName ++ [0, 2, 0, 1])
  fits := by decide

/-- The same, with a pointer to the name after the question. -/
def pointedQuestion : Packet where
  bytes := oneQuestion ++ ([0xC0, 18, 0, 2, 0, 1] ++ encodeName zoneName)
  fits := by decide

theorem strictName_zone {off : Nat} {wasPtr : Bool} (user : q.bytes[off]? = some 4)
    (splintermail : q.bytes[off + 5]? = some 12) (com : q.bytes[off + 18]? = some 3)
    (zero : q.bytes[off + 22]? = some 0) :
    StrictName q wasPtr off [⟨off + 1, 4⟩, ⟨off + 6, 12⟩, ⟨off + 19, 3⟩] :=
  .label user (by decide) (by decide) (by decide)
    (.label splintermail (by decide) (by decide) (by decide)
      (.label com (by decide) (by decide) (by decide) (.root zero)))

theorem nameEnd_zone {off : Nat} (user : q.bytes[off]? = some 4)
    (splintermail : q.bytes[off + 5]? = some 12) (com : q.bytes[off + 18]? = some 3)
    (zero : q.bytes[off + 22]? = some 0) : NameEnd q off (off + 23) :=
  .label user (by decide) (by decide) (.label splintermail (by decide) (by decide)
    (.label com (by decide) (by decide) (.root zero)))

theorem zone_single : [[(⟨13, 4⟩ : Lstr), ⟨18, 12⟩, ⟨31, 3⟩]].length = 1 := rfl

def plainLayout : Layout plainQuestion where
  hdr := { id := 7, qdcount := 1 }
  names := [[⟨13, 4⟩, ⟨18, 12⟩, ⟨31, 3⟩]]
  namesEnd := 35
  qtype := 2
  qclass := 1
  ans := []
  ansEnd := 39
  auth := []
  authEnd := 39
  addl := []
  addlEnd := 39
  header := by rfl
  named := .cons ⟨strictName_zone rfl rfl rfl rfl, nameEnd_zone rfl rfl rfl rfl, by decide⟩ .nil
  qdcount := zone_single
  typed := rfl
  classed := rfl
  answers := .nil
  ancount := length_nil
  authorities := .nil
  nscount := length_nil
  additionals := .nil
  arcount := length_nil

def pointedLayout : Layout pointedQuestion where
  hdr := { id := 7, qdcount := 1 }
  names := [[⟨19, 4⟩, ⟨24, 12⟩, ⟨37, 3⟩]]
  namesEnd := 14
  qtype := 2
  qclass := 1
  ans := []
  ansEnd := 18
  auth := []
  authEnd := 18
  addl := []
  addlEnd := 18
  header := by rfl
  named := .cons ⟨.pointer rfl (by decide) rfl (@strictName_zone pointedQuestion 18 true rfl rfl rfl
    rfl), .pointer rfl (by decide), by decide⟩ .nil
  qdcount := rfl
  typed := rfl
  classed := rfl
  answers := .nil
  ancount := length_nil
  authorities := .nil
  nscount := length_nil
  additionals := .nil
  arcount := length_nil

theorem compression_invisible_zone :
    ∃ outcome,
      Yields (handlePacket plainQuestion false (fun _ => .absent) (fun _ => 0) 512) outcome ∧
      Yields (handlePacket pointedQuestion false (fun _ => .absent) (fun _ => 0) 512) outcome ∧
      ((∀ user, Lookup.Short ((fun _ => .absent : Bytes → Lookup) user)) →
        ∃ handled, outcome = .ok handled) :=
  (compression_invisible.1 plainQuestion pointedQuestion plainLayout.pkt pointedLayout.pkt
    [⟨13, 4⟩, ⟨18, 12⟩, ⟨31, 3⟩] [⟨19, 4⟩, ⟨24, 12⟩, ⟨37, 3⟩]
    (parsePkt_accepts ⟨plainLayout, [], 39, .nil, rfl, .inl ⟨rfl, rfl⟩⟩)
    (parsePkt_accepts ⟨pointedLayout, [], 18, .nil, rfl, .inl ⟨rfl, rfl⟩⟩)
    (@strictName_zone plainQuestion 12 false rfl rfl rfl rfl).name
    (.pointer rfl (by decide) rfl (@strictName_zone pointedQuestion 18 true rfl rfl rfl rfl).name)
    ⟨rfl, rfl, rfl, rfl, rfl, rfl⟩ (fun _ => .absent) (fun _ => 0) 512).1

end Dns

end Splintermail
