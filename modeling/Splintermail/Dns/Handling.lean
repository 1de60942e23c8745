/-
This file proves what `handle_packet` does with a packet that the parser accepts, in terms
of the labels of its question.
-/

import Splintermail.Dns.Response

namespace Splintermail

open List

namespace Dns

variable {q : Packet} {pkt : DnsPkt} {labels : List Lstr}

/-! ### Sorting -/

/-- Two labels are the same but for the case of letters. -/
def nameIeq (a b : Bytes) : Bool := a.map lower = b.map lower

/-- `sort_pkt`, in terms of the labels of the question. -/
def sortNames (hdr : DnsHdr) (qtype qclass : Nat) (names : List Bytes) : Respond :=
  if hdr.qr then .norespond
  else if hdr.opcode ≠ 0 then .norespond
  else if hdr.qdcount ≠ 1 then .norespond
  else if qclass ≠ 1 then .norespond
  else if qtype = 0 then .norespond
  else if names.length < 3 then .norespond
  else if !nameIeq (names.reverse.getD 0 []) labelCom then .norespond
  else if !nameIeq (names.reverse.getD 1 []) labelSplintermail then .norespond
  else if !nameIeq (names.reverse.getD 2 []) labelUser then .norespond
  else if typeTxt < qtype ∧ qtype ≠ typeAaaa ∧ qtype ≠ typeCaa then .notimpl
  else if names.length = 3 then .root
  else if names.length = 4 then .user
  else if names.length = 5 ∧ nameIeq (names.reverse.getD 4 []) labelAcmeChallenge then .acme
  else .nameError

theorem lstrIeq_eq {a : Lstr} (inside : a.off + a.len ≤ q.len) (b : Bytes) :
    lstrIeq q a b = .ok (nameIeq (a.bytes q) b) := by
  unfold lstrIeq nameIeq
  by_cases same : a.len = b.length
  · rw [if_neg (not_not_intro same), readBytes_eq inside]
    rfl
  · rw [if_pos same]
    have apart : (a.bytes q).map lower ≠ b.map lower := fun equal => by
      have lengths := congrArg length equal
      rw [length_map, length_map, length_bytes inside] at lengths
      exact same lengths
    rw [decide_eq_false apart]

/-- The labels from the last one on, as they are stored. -/
def storedLabels (labels : List Lstr) : List Lstr :=
  labels.reverse.take 6 ++ (replicate 6 ({} : Lstr)).drop labels.length

theorem getD_storedLabels {index : Nat} (small : index < 6) (inside : index < labels.length) :
    ∃ l ∈ labels, (storedLabels labels).getD index {} = l ∧
      (texts q labels).reverse.getD index [] = l.bytes q := by
  have inReverse : index < labels.reverse.length := by rwa [length_reverse]
  refine ⟨labels.reverse[index], mem_reverse.mp (getElem_mem _), ?_, ?_⟩
  · unfold storedLabels
    have inTake : index < (labels.reverse.take 6).length := by
      rw [length_take, length_reverse]
      omega
    rw [getD_append _ _ _ _ inTake, getD_eq_getElem _ _ inTake, getElem_take]
  · unfold texts
    rw [← map_reverse, getD_eq_getElem _ _ (by rwa [length_map]), getElem_map]

theorem sortPkt_eq (inside : ∀ l ∈ labels, l.off + l.len ≤ q.len) :
    sortPkt q pkt (storedLabels labels) (if 6 < labels.length then 6 else labels.length) =
      .ok (sortNames pkt.hdr pkt.qstn.qtype pkt.qstn.qclass (texts q labels)) := by
  have length : (texts q labels).length = labels.length := length_map _
  have compare : ∀ index b, index < 6 → index < labels.length →
      lstrIeq q ((storedLabels labels).getD index {}) b =
        .ok (nameIeq ((texts q labels).reverse.getD index []) b) := by
    intro index b small inLabels
    obtain ⟨l, mem, stored, text⟩ := @getD_storedLabels q labels index small inLabels
    rw [stored, text]
    exact lstrIeq_eq (inside l mem) b
  have count : ∀ bound, bound < 6 →
      ((if 6 < labels.length then 6 else labels.length) = bound ↔ labels.length = bound) := by
    intro bound small
    split <;> omega
  unfold sortPkt sortNames
  rw [length]
  by_cases response : pkt.hdr.qr = true
  · rw [if_pos response, if_pos response]
    rfl
  rw [if_neg response, if_neg response]
  by_cases opcode : pkt.hdr.opcode ≠ 0
  · rw [if_pos opcode, if_pos opcode]
    rfl
  rw [if_neg opcode, if_neg opcode]
  by_cases qdcount : pkt.hdr.qdcount ≠ 1
  · rw [if_pos qdcount, if_pos qdcount]
    rfl
  rw [if_neg qdcount, if_neg qdcount]
  by_cases qclass : pkt.qstn.qclass ≠ 1
  · rw [if_pos qclass, if_pos qclass]
    rfl
  rw [if_neg qclass, if_neg qclass]
  by_cases qtype : pkt.qstn.qtype = 0
  · rw [if_pos qtype, if_pos qtype]
    rfl
  rw [if_neg qtype, if_neg qtype]
  by_cases few : labels.length < 3
  · rw [if_pos few, if_pos (by split <;> omega)]
    rfl
  rw [if_neg few, if_neg (by split <;> omega), compare 0 _ (by omega) (by omega),
    compare 1 _ (by omega) (by omega), compare 2 _ (by omega) (by omega)]
  by_cases com : (!nameIeq ((texts q labels).reverse.getD 0 []) labelCom) = true
  · rw [if_pos com]
    exact if_pos com
  rw [if_neg com]
  refine (if_neg com).trans ?_
  by_cases splintermail : (!nameIeq ((texts q labels).reverse.getD 1 []) labelSplintermail) = true
  · rw [if_pos splintermail]
    exact if_pos splintermail
  rw [if_neg splintermail]
  refine (if_neg splintermail).trans ?_
  by_cases user : (!nameIeq ((texts q labels).reverse.getD 2 []) labelUser) = true
  · rw [if_pos user]
    exact if_pos user
  rw [if_neg user]
  refine (if_neg user).trans ?_
  by_cases odd : typeTxt < pkt.qstn.qtype ∧ pkt.qstn.qtype ≠ typeAaaa ∧ pkt.qstn.qtype ≠ typeCaa
  · rw [if_pos odd, if_pos odd]
    rfl
  rw [if_neg odd, if_neg odd]
  simp only [count 3 (by omega), count 4 (by omega), count 5 (by omega)]
  by_cases three : labels.length = 3
  · rw [if_pos three, if_pos three]
    rfl
  rw [if_neg three, if_neg three]
  by_cases four : labels.length = 4
  · rw [if_pos four, if_pos four]
    rfl
  rw [if_neg four, if_neg four]
  by_cases five : labels.length = 5
  · rw [if_pos five, compare 4 _ (by omega) (by omega)]
    by_cases acme : nameIeq ((texts q labels).reverse.getD 4 []) labelAcmeChallenge = true
    · rw [if_pos ⟨five, acme⟩]
      exact if_pos acme
    · rw [if_neg fun both => acme both.2]
      exact if_neg acme
  · rw [if_neg five, if_neg fun both => five both.1]
    rfl

/-! ### Answers -/

/-- What a response says. -/
structure Content where
  rcode : Nat
  aa : Bool
  answers : List ResourceRecord := []
  authorities : List ResourceRecord := []

/-- There is no such record. -/
def norecord : Content where
  rcode := rcodeOk
  aa := true
  authorities := [soaRecord]

/-- What is answered to a query that was sorted. -/
def contentOf (qtype : Nat) (secret : Lookup) : Respond → Content
  | .norespond => { rcode := rcodeOk, aa := false }
  | .notimpl => { rcode := rcodeNotimpl, aa := false }
  | .nameError => { rcode := rcodeNameerr, aa := true, authorities := [soaRecord] }
  | .root =>
    if qtype = typeSoa then { rcode := rcodeOk, aa := true, answers := [soaRecord] }
    else if qtype = typeNs then
      { rcode := rcodeOk, aa := true, answers := [nsRecord ns1Name, nsRecord ns2Name] }
    else if qtype = typeCaa then { rcode := rcodeOk, aa := true, answers := [caaRecord] }
    else norecord
  | .user =>
    if qtype = typeA then { rcode := rcodeOk, aa := true, answers := [aRecord] }
    else if qtype = typeAaaa then { rcode := rcodeOk, aa := true, answers := [aaaaRecord] }
    else if qtype = typeCaa then { rcode := rcodeOk, aa := true, answers := [caaRecord] }
    else norecord
  | .acme =>
    if qtype ≠ typeTxt then norecord
    else match secret with
      | .absent => norecord
      | .unsure => { rcode := rcodeSrverr, aa := true }
      | .found secret => { rcode := rcodeOk, aa := true, answers := [secretRecord secret] }

/-- A secret is not longer than the string of a TXT record. -/
def Lookup.Short (secret : Lookup) : Prop := ∀ bytes, secret = .found bytes → bytes.length ≤ 255

/-- How long the records of a response are. -/
def Content.size (content : Content) : Nat :=
  (recordBytes (content.answers ++ content.authorities)).length

/-- The response to a packet with a content. -/
def DnsPkt.with (pkt : DnsPkt) (names : List Bytes) (content : Content) : Message :=
  pkt.responseTo names content.rcode content.aa content.answers content.authorities

section Respond

variable {rbuf : Nat → UInt8} {cap : Nat} {secret : Lookup}

theorem respond_eq (single : pkt.hdr.qdcount = 1) (asked : pkt.qstn.qdcount = 1)
    (name : Name q pkt.qstn.off labels) (short : secret.Short) {chosen : Respond}
    (answered : chosen ≠ .norespond)
    (room : dnsHdrSize + (pkt.with (texts q labels)
      (contentOf pkt.qstn.qtype secret chosen)).body.length ≤ cap) :
    Returns (fun fuel => respond q fuel pkt rbuf cap secret chosen)
      ((pkt.with (texts q labels) (contentOf pkt.qstn.qtype secret chosen)).encode.length,
        withMessage rbuf (pkt.with (texts q labels) (contentOf pkt.qstn.qtype secret chosen))) := by
  have negative : ∀ (rcode : Nat) (aa soa : Bool), rcode < 16 → dnsHdrSize + (pkt.responseTo (texts q labels) rcode aa
      [] (if soa then [soaRecord] else [])).body.length ≤ cap → _ := fun rcode aa soa code =>
    @negativeResp_eq q pkt labels cap rcode rbuf single asked name code aa soa
  have none := negative rcodeOk true true (by decide)
  have positive : ∀ arg writers answers, List.Forall₂ (Writes arg) writers answers →
      dnsHdrSize + (pkt.responseTo (texts q labels) 0 true answers []).body.length ≤ cap → _ :=
    fun arg writers answers writes =>
      @positiveResp_eq q pkt labels cap rbuf arg writers answers writes single asked name
  cases chosen with
  | norespond => exact absurd rfl answered
  | notimpl => exact negative rcodeNotimpl false false (by decide) room
  | nameError => exact negative rcodeNameerr true true (by decide) room
  | root =>
    unfold contentOf at room ⊢
    unfold respond respondRoot
    by_cases soa : pkt.qstn.qtype = typeSoa
    · simp only [if_pos soa] at room ⊢
      exact positive [] [writeSoa] [soaRecord] (.cons (writeSoa_writes _) .nil) room
    simp only [if_neg soa] at room ⊢
    by_cases ns : pkt.qstn.qtype = typeNs
    · simp only [if_pos ns] at room ⊢
      exact positive [] [writeNs1, writeNs2] [nsRecord ns1Name, nsRecord ns2Name]
        (.cons (writeNs_writes _ rfl) (.cons (writeNs_writes _ rfl) .nil)) room
    simp only [if_neg ns] at room ⊢
    by_cases caa : pkt.qstn.qtype = typeCaa
    · simp only [if_pos caa] at room ⊢
      exact positive [] [writeCaa] [caaRecord] (.cons (writeCaa_writes _) .nil) room
    simp only [if_neg caa] at room ⊢
    exact none room
  | user =>
    unfold contentOf at room ⊢
    unfold respond respondUser
    by_cases a : pkt.qstn.qtype = typeA
    · simp only [if_pos a] at room ⊢
      exact positive [] [writeA] [aRecord] (.cons (writeA_writes _) .nil) room
    simp only [if_neg a] at room ⊢
    by_cases aaaa : pkt.qstn.qtype = typeAaaa
    · simp only [if_pos aaaa] at room ⊢
      exact positive [] [writeAaaa] [aaaaRecord] (.cons (writeAaaa_writes _) .nil) room
    simp only [if_neg aaaa] at room ⊢
    by_cases caa : pkt.qstn.qtype = typeCaa
    · simp only [if_pos caa] at room ⊢
      exact positive [] [writeCaa] [caaRecord] (.cons (writeCaa_writes _) .nil) room
    simp only [if_neg caa] at room ⊢
    exact none room
  | acme =>
    unfold contentOf at room ⊢
    unfold respond respondAcme
    by_cases txt : pkt.qstn.qtype ≠ typeTxt
    · simp only [if_pos txt] at room ⊢
      exact none room
    simp only [if_neg txt] at room ⊢
    cases secret with
    | absent => exact none room
    | unsure => exact negative rcodeSrverr true false (by decide) room
    | found bytes =>
      exact positive bytes [writeSecret] [secretRecord bytes]
        (.cons (writeSecret_writes (short bytes rfl)) .nil) room

end Respond

/-! ### Sizes -/

theorem StrictName.label_len {wasPtr : Bool} {off : Nat} (strict : StrictName q wasPtr off labels) :
    ∀ l ∈ labels, 1 ≤ l.len ∧ l.len ≤ 63 := by
  induction strict with
  | root _ => exact nofun
  | pointer _ _ _ _ ih => exact ih
  | label _ notRoot _ short _ ih =>
    intro l mem
    rcases mem_cons.mp mem with rfl | mem
    · refine ⟨Nat.pos_of_ne_zero fun none => notRoot ?_, short⟩
      exact UInt8.toNat_inj.mp none
    · exact ih l mem

theorem nameIeq_length {a b : Bytes} (same : nameIeq a b = true) : a.length = b.length := by
  have lengths := congrArg length (of_decide_eq_true same)
  rwa [length_map, length_map] at lengths

theorem else_of_ne {Value : Type} {condition : Prop} [Decidable condition]
    {first second value : Value} (result : (if condition then first else second) = value)
    (other : first ≠ value) : ¬condition ∧ second = value := by
  by_cases met : condition
  · rw [if_pos met] at result
    exact absurd result other
  · rw [if_neg met] at result
    exact ⟨met, result⟩

/-- The labels of a query for a challenge. -/
theorem sortNames_acme {hdr : DnsHdr} {qtype qclass : Nat} {names : List Bytes}
    (sorted : sortNames hdr qtype qclass names = .acme) :
    names.length = 5 ∧ nameIeq (names.reverse.getD 0 []) labelCom = true ∧
      nameIeq (names.reverse.getD 1 []) labelSplintermail = true ∧
      nameIeq (names.reverse.getD 2 []) labelUser = true ∧
      nameIeq (names.reverse.getD 4 []) labelAcmeChallenge = true := by
  unfold sortNames at sorted
  obtain ⟨_, sorted⟩ := else_of_ne sorted (by decide)
  obtain ⟨_, sorted⟩ := else_of_ne sorted (by decide)
  obtain ⟨_, sorted⟩ := else_of_ne sorted (by decide)
  obtain ⟨_, sorted⟩ := else_of_ne sorted (by decide)
  obtain ⟨_, sorted⟩ := else_of_ne sorted (by decide)
  obtain ⟨_, sorted⟩ := else_of_ne sorted (by decide)
  obtain ⟨com, sorted⟩ := else_of_ne sorted (by decide)
  obtain ⟨splintermail, sorted⟩ := else_of_ne sorted (by decide)
  obtain ⟨user, sorted⟩ := else_of_ne sorted (by decide)
  obtain ⟨_, sorted⟩ := else_of_ne sorted (by decide)
  obtain ⟨_, sorted⟩ := else_of_ne sorted (by decide)
  obtain ⟨_, sorted⟩ := else_of_ne sorted (by decide)
  rw [Bool.not_eq_true, Bool.not_eq_false'] at com splintermail user
  by_cases acme : names.length = 5 ∧ nameIeq (names.reverse.getD 4 []) labelAcmeChallenge = true
  · exact ⟨acme.1, com, splintermail, user, acme.2⟩
  · rw [if_neg acme] at sorted
    exact nomatch sorted

theorem length_of_acme {hdr : DnsHdr} {qtype qclass : Nat} {names : List Bytes}
    (sorted : sortNames hdr qtype qclass names = .acme) (short : ∀ l ∈ names, l.length ≤ 63) :
    (encodeName names).length ≤ 103 := by
  obtain ⟨five, com, splintermail, user, challenge⟩ := sortNames_acme sorted
  match names, five with
  | [first, second, third, fourth, fifth], _ =>
    have comLength : fifth.length = 3 := nameIeq_length com
    have splintermailLength : fourth.length = 12 := nameIeq_length splintermail
    have userLength : third.length = 4 := nameIeq_length user
    have challengeLength : first.length = 15 := nameIeq_length challenge
    have secondShort := short second (.tail _ mem_cons_self)
    unfold encodeName
    simp only [flatMap_cons, flatMap_nil, length_append, length_cons, length_nil]
    omega

/-- The contents of all responses but those with a secret. -/
def fixedContents : List Content :=
  [{ rcode := rcodeOk, aa := false }, { rcode := rcodeNotimpl, aa := false },
    { rcode := rcodeNameerr, aa := true, authorities := [soaRecord] },
    { rcode := rcodeOk, aa := true, answers := [soaRecord] },
    { rcode := rcodeOk, aa := true, answers := [nsRecord ns1Name, nsRecord ns2Name] },
    { rcode := rcodeOk, aa := true, answers := [caaRecord] },
    { rcode := rcodeOk, aa := true, answers := [aRecord] },
    { rcode := rcodeOk, aa := true, answers := [aaaaRecord] }, norecord,
    { rcode := rcodeSrverr, aa := true }]

theorem contentOf_mem (qtype : Nat) (secret : Lookup) (chosen : Respond) :
    contentOf qtype secret chosen ∈ fixedContents ∨
      ∃ bytes, chosen = .acme ∧ secret = .found bytes ∧ contentOf qtype secret chosen =
        { rcode := rcodeOk, aa := true, answers := [secretRecord bytes] } := by
  cases chosen with
  | norespond => exact .inl (by simp [contentOf, fixedContents])
  | notimpl => exact .inl (by simp [contentOf, fixedContents])
  | nameError => exact .inl (by simp [contentOf, fixedContents])
  | root =>
    left
    rw [contentOf]
    split
    · simp [fixedContents]
    · split
      · simp [fixedContents]
      · split <;> simp [fixedContents]
  | user =>
    left
    rw [contentOf]
    split
    · simp [fixedContents]
    · split
      · simp [fixedContents]
      · split <;> simp [fixedContents]
  | acme =>
    rw [contentOf.eq_def]
    dsimp only
    by_cases odd : qtype ≠ typeTxt
    · rw [if_pos odd]
      exact .inl (by simp [fixedContents])
    rw [if_neg odd]
    cases secret with
    | absent => exact .inl (by simp [fixedContents])
    | unsure => exact .inl (by simp [fixedContents])
    | found bytes => exact .inr ⟨bytes, rfl, rfl, rfl⟩

theorem size_contentOf {qtype : Nat} {secret : Lookup} (short : secret.Short) (chosen : Respond) :
    (contentOf qtype secret chosen).size ≤ 268 ∧
      (chosen ≠ .acme → (contentOf qtype secret chosen).size ≤ 110) := by
  rcases contentOf_mem qtype secret chosen with fixed | ⟨bytes, acme, rfl, same⟩
  · have all : ∀ content ∈ fixedContents, content.size ≤ 110 := by decide +kernel
    have small := all _ fixed
    exact ⟨Nat.le_trans small (by decide), fun _ => small⟩
  · refine ⟨?_, fun other => absurd acme other⟩
    have one : recordBytes ([secretRecord bytes] ++ []) = (secretRecord bytes).encode :=
      append_nil _
    rw [same]
    unfold Content.size
    rw [one, length_secretRecord]
    have bound := short bytes rfl
    omega

/-- What the server writes fits into its fields. -/
theorem sound_contentOf {qtype : Nat} {secret : Lookup} (short : secret.Short) (chosen : Respond) :
    (contentOf qtype secret chosen).rcode < 2 ^ 4 ∧
      (contentOf qtype secret chosen).answers.length ≤ 2 ∧
      (contentOf qtype secret chosen).authorities.length ≤ 1 ∧
      ∀ rr ∈ (contentOf qtype secret chosen).answers ++ (contentOf qtype secret chosen).authorities,
        rr.rrtype < 2 ^ 16 ∧ rr.rrclass < 2 ^ 16 ∧ rr.ttl < 2 ^ 32 ∧ rr.data.length < 2 ^ 16 := by
  rcases contentOf_mem qtype secret chosen with fixed | ⟨bytes, acme, rfl, same⟩
  · have all : ∀ content ∈ fixedContents, content.rcode < 2 ^ 4 ∧ content.answers.length ≤ 2 ∧
        content.authorities.length ≤ 1 ∧ ∀ rr ∈ content.answers ++ content.authorities,
          rr.rrtype < 2 ^ 16 ∧ rr.rrclass < 2 ^ 16 ∧ rr.ttl < 2 ^ 32 ∧ rr.data.length < 2 ^ 16 := by
      decide +kernel
    exact all _ fixed
  · rw [same]
    refine ⟨(by decide : rcodeOk < 2 ^ 4), Nat.le_succ 1, Nat.zero_le 1, fun rr mem => ?_⟩
    obtain rfl := mem_singleton.mp mem
    refine ⟨(by decide : typeTxt < 2 ^ 16), (by decide : 1 < 2 ^ 16), (by decide : txtTtl < 2 ^ 32),
      ?_⟩
    have bound := short bytes rfl
    show bytes.length + 1 < 2 ^ 16
    omega

/-! ### Packets -/

section Packets

variable (pkt) (names : List Bytes) (iget : Bytes → Lookup)

/-- What the query is sorted to. -/
def DnsPkt.chosen : Respond := sortNames pkt.hdr pkt.qstn.qtype pkt.qstn.qclass names

/-- The user that is looked up. -/
def DnsPkt.asked : Option Bytes :=
  if pkt.chosen names = .acme then some (names.reverse.getD 3 []) else none

/-- What the lookup gives. -/
def DnsPkt.secret : Lookup :=
  match pkt.asked names with
  | some user => iget user
  | none => .absent

/-- The response. -/
def DnsPkt.reply : Message :=
  pkt.with names (contentOf pkt.qstn.qtype (pkt.secret names iget) (pkt.chosen names))

/-- What comes of the query. -/
def DnsPkt.handled (rbuf : Nat → UInt8) : Handled :=
  if pkt.chosen names = .norespond then { len := 0, rbuf }
  else {
    len := (pkt.reply names iget).encode.length
    rbuf := withMessage rbuf (pkt.reply names iget)
    asked := pkt.asked names }

end Packets

variable {iget : Bytes → Lookup}

theorem sortNames_single {hdr : DnsHdr} {qtype qclass : Nat} {names : List Bytes}
    (answered : sortNames hdr qtype qclass names ≠ .norespond) : hdr.qdcount = 1 := by
  by_contra several
  refine answered ?_
  unfold sortNames
  by_cases response : hdr.qr = true
  · rw [if_pos response]
  rw [if_neg response]
  by_cases opcode : hdr.opcode ≠ 0
  · rw [if_pos opcode]
  rw [if_neg opcode, if_pos several]

section

variable (accepted : Accepted q pkt)

include accepted

theorem Accepted.off : pkt.qstn.off = dnsHdrSize := by
  obtain ⟨_, _, _, _, _, ⟨_, rfl⟩ | ⟨_, _, _, _, rfl⟩⟩ := accepted
  · rfl
  · rfl

theorem Accepted.qdcount : pkt.qstn.qdcount = pkt.hdr.qdcount := by
  obtain ⟨_, _, _, _, _, ⟨_, rfl⟩ | ⟨_, _, _, _, rfl⟩⟩ := accepted
  · rfl
  · rfl

theorem Accepted.named (some : pkt.hdr.qdcount ≠ 0) :
    ∃ labels stop, ValidName q dnsHdrSize labels stop := by
  have ⟨layout, _⟩ := accepted
  have hdr := (accepted.sections layout).1
  rw [hdr, ← layout.qdcount] at some
  have named := layout.named
  cases names : layout.names with
  | nil =>
    rw [names] at some
    exact absurd rfl some
  | cons labels _ =>
    rw [names] at named
    cases named with
    | cons valid _ => exact ⟨labels, _, valid⟩

theorem Accepted.validName (some : pkt.hdr.qdcount ≠ 0) (name : Name q dnsHdrSize labels) :
    ∃ stop, ValidName q dnsHdrSize labels stop := by
  obtain ⟨others, stop, valid⟩ := accepted.named some
  obtain rfl := name.unique valid.name
  exact ⟨stop, valid⟩

end

theorem secret_short (short : ∀ user, (iget user).Short) (names : List Bytes) :
    (pkt.secret names iget).Short := by
  unfold DnsPkt.secret
  cases pkt.asked names with
  | none => exact fun _ same => nomatch same
  | some user => exact short user

theorem length_text {stop : Nat} (valid : ValidName q dnsHdrSize labels stop) :
    ∀ l ∈ texts q labels, 1 ≤ l.length ∧ l.length ≤ 63 := by
  intro l mem
  obtain ⟨label, inLabels, rfl⟩ := mem_map.mp mem
  rw [length_bytes (valid.name.inside label inLabels)]
  exact valid.strict.label_len label inLabels

theorem reply_fits (accepted : Accepted q pkt) (name : Name q dnsHdrSize labels)
    (short : ∀ user, (iget user).Short) (answered : pkt.chosen (texts q labels) ≠ .norespond) :
    dnsHdrSize + (pkt.reply (texts q labels) iget).body.length ≤ 398 := by
  have single := sortNames_single answered
  obtain ⟨stop, valid⟩ := accepted.validName (by rw [single]; exact Nat.one_ne_zero) name
  have wire := valid.short
  rw [← length_encodeName name.inside] at wire
  have secret : (pkt.secret (texts q labels) iget).Short := secret_short short _
  obtain ⟨most, others⟩ := @size_contentOf pkt.qstn.qtype _ secret (pkt.chosen (texts q labels))
  unfold DnsPkt.reply DnsPkt.with DnsPkt.responseTo
  rw [length_body]
  unfold Content.size at most others
  have edns : (if pkt.edns.found = true then bareEdnsSize else 0) ≤ 11 := by
    split
    · exact Nat.le_refl 11
    · exact Nat.zero_le 11
  show 12 + _ ≤ 398
  by_cases acme : pkt.chosen (texts q labels) = .acme
  · have named := length_of_acme acme fun l mem => (length_text valid l mem).2
    omega
  · have small := others acme
    omega

theorem lookupSecret_eq (inside : ∀ l ∈ labels, l.off + l.len ≤ q.len) :
    lookupSecret q iget (storedLabels labels) (if 6 < labels.length then 6 else labels.length)
      (pkt.chosen (texts q labels)) =
        .ok (pkt.secret (texts q labels) iget, pkt.asked (texts q labels)) := by
  unfold DnsPkt.secret DnsPkt.asked lookupSecret
  by_cases acme : pkt.chosen (texts q labels) = .acme
  · have five := (sortNames_acme acme).1
    unfold texts at five
    rw [length_map] at five
    obtain ⟨l, mem, stored, text⟩ := @getD_storedLabels q labels 3 (by decide) (by omega)
    rw [if_neg (not_not_intro acme), if_pos acme, if_neg (by split <;> omega), stored, text]
    dsimp only
    rw [readBytes_eq (inside l mem)]
    rfl
  · rw [if_pos acme, if_neg acme]

/-- The capacity that a response may use. -/
def DnsPkt.cap (pkt : DnsPkt) (rcap : Nat) : Nat :=
  if pkt.edns.found then max (min rcap pkt.edns.udpSize) 512 else min rcap 512

/-- What follows the first pass. -/
theorem answer_yields {rbuf : Nat → UInt8} {rcap : Nat} {outcome : Except ReadFault Handled}
    (accepted : Accepted q pkt) (name : Name q dnsHdrSize labels)
    (responded : Yields (fun fuel => respond q fuel pkt rbuf (pkt.cap rcap)
        (pkt.secret (texts q labels) iget) (pkt.chosen (texts q labels)) >>= fun (len, rbuf) =>
          .ok { len, rbuf, asked := pkt.asked (texts q labels) }) outcome) :
    Yields (fun fuel => do
      let (n, rname) ← labelsReadReverse q fuel pkt.qstn.off (replicate 6 {})
      let n := if 6 < n then 6 else n
      let chosen ← sortPkt q pkt rname n
      let (secret, asked) ← lookupSecret q iget rname n chosen
      let rcap := if pkt.edns.found then max (min rcap pkt.edns.udpSize) 512 else min rcap 512
      let (len, rbuf) ← respond q fuel pkt rbuf rcap secret chosen
      return { len, rbuf, asked }) outcome := by
  have name' : Name q pkt.qstn.off labels := by rwa [accepted.off]
  refine (labelsReadReverse_eq name' _).yields ?_
  have sorted := @sortPkt_eq q pkt labels name.inside
  have looked := @lookupSecret_eq q pkt labels iget name.inside
  unfold storedLabels at sorted looked
  dsimp only
  rw [length_replicate, sorted]
  refine Returns.pure.yields ?_
  have step : Returns (fun _ : Nat => _) _ := ⟨0, fun _ _ => looked⟩
  exact step.yields responded

/-- After the parser, the log and the lookup comes the response. -/
theorem handlePacket_yields {log : Bool} {rbuf : Nat → UInt8} {rcap : Nat}
    {outcome : Except ReadFault Handled} (accepted : Accepted q pkt)
    (name : Name q dnsHdrSize labels) (big : 512 ≤ rcap)
    (logged : log = true → Returns (fun fuel => fmtPkt q fuel pkt) ())
    (responded : Yields (fun fuel => respond q fuel pkt rbuf (pkt.cap rcap)
        (pkt.secret (texts q labels) iget) (pkt.chosen (texts q labels)) >>= fun (len, rbuf) =>
          .ok { len, rbuf, asked := pkt.asked (texts q labels) }) outcome) :
    Yields (handlePacket q log iget rbuf rcap) outcome := by
  have rest := answer_yields accepted name responded
  unfold handlePacket
  simp only [Nat.not_lt_of_le big, if_false]
  refine (parsePkt_accepts accepted).yields ?_
  cases log with
  | false => exact rest
  | true => exact (logged rfl).yields rest

theorem handlePacket_eq {log : Bool} {rbuf : Nat → UInt8} {rcap : Nat} (accepted : Accepted q pkt)
    (name : Name q dnsHdrSize labels) (big : 512 ≤ rcap) (short : ∀ user, (iget user).Short)
    (logged : log = true → Returns (fun fuel => fmtPkt q fuel pkt) ()) :
    Returns (handlePacket q log iget rbuf rcap) (pkt.handled (texts q labels) iget rbuf) := by
  refine handlePacket_yields accepted name big logged ?_
  have name' : Name q pkt.qstn.off labels := by rwa [accepted.off]
  unfold DnsPkt.handled
  by_cases silent : pkt.chosen (texts q labels) = .norespond
  · rw [if_pos silent, silent]
    have none : pkt.asked (texts q labels) = none := by
      unfold DnsPkt.asked
      rw [silent]
      rfl
    rw [none]
    exact .const _
  · rw [if_neg silent]
    have fits := reply_fits accepted name short silent
    have single := sortNames_single silent
    have room : 398 ≤ pkt.cap rcap := by
      unfold DnsPkt.cap
      split <;> omega
    have response := @respond_eq q pkt labels rbuf (pkt.cap rcap) (pkt.secret (texts q labels) iget)
      single (accepted.qdcount.trans single) name' (secret_short short _)
      (pkt.chosen (texts q labels)) silent (Nat.le_trans fits room)
    exact response.yields (.const _)

theorem handlePacket_unlogged {log : Bool} {rbuf : Nat → UInt8} {rcap : Nat} {handled : Handled}
    (returns : Returns (handlePacket q log iget rbuf rcap) handled) :
    Returns (handlePacket q false iget rbuf rcap) handled := by
  obtain ⟨enough, result⟩ := returns
  refine ⟨enough, fun fuel more => ?_⟩
  have logged := result fuel more
  cases log with
  | false => exact logged
  | true =>
    unfold handlePacket at logged ⊢
    by_cases small : rcap < 512
    · rw [if_pos small] at logged ⊢
      exact logged
    rw [if_neg small] at logged ⊢
    obtain ⟨⟨pret, pkt⟩, parsed, logged⟩ := ok_bind logged
    rw [parsed]
    by_cases bad : isBadParse pret = true
    · exact (if_pos bad).trans ((if_pos bad).symm.trans logged)
    · have rest := (if_neg bad).symm.trans logged
      obtain ⟨_, _, rest⟩ := ok_bind rest
      exact (if_neg bad).trans rest

end Dns

end Splintermail
