/-
This file proves what an `XKEYSYNC` command promises: that a check reports the difference
between what the client knows and the list of the database, and that the client holds the
keys of that list after it.

Two things break this. A fingerprint that the client sent twice, and that the database has, is
paired off once and reported as deleted once. And a check whose lookup fails after
something was reported leaves the client with it, while the server goes on from the list
before. Where neither happens, the client holds what the server takes it to know, with
the same multiplicities, between any two checks.
-/

import Splintermail.Xkey.Xkeysync
import Mathlib.Data.List.Sort

namespace Splintermail

open List Mismatch Xkeysync XkeyLine KeydirKeys XkeyClient XkeysyncContext

variable {ssl : PemReader}

namespace Xkeysync

/-! ### Sorting -/

theorem dstrCmp2_pos {first second : SmsqlFpr} :
    dstrCmp2 first.text second.text > 0 ↔ ¬ first ≤ second := by
  by_cases same : first = second
  · subst same
    simp [SmsqlFpr.dstrCmp2_eq_zero.mpr rfl]
  · have lt := SmsqlFpr.dstrCmp2_lt_zero same
    have differ := mt SmsqlFpr.dstrCmp2_eq_zero.mp same
    rw [not_le, ← not_le, le_iff_lt_or_eq, or_iff_left same, ← lt]
    omega

theorem placeFpr_eq (new : SmsqlFpr) (fprs : List SmsqlFpr) :
    placeFpr new fprs = fprs.orderedInsert (· ≤ ·) new := by
  induction fprs with
  | nil => rfl
  | cons old rest ih =>
    rw [placeFpr, orderedInsert_cons, ih]
    by_cases order : new ≤ old
    · rw [if_neg (mt dstrCmp2_pos.mp (not_not.mpr order)), if_pos order]
    · rw [if_pos (dstrCmp2_pos.mpr order), if_neg order]

theorem sortFprs_eq (fprs : List SmsqlFpr) : sortFprs fprs = fprs.insertionSort (· ≤ ·) := by
  have place : placeFpr = orderedInsert (· ≤ ·) := funext fun new => funext (placeFpr_eq new)
  rw [sortFprs]
  split
  · next short =>
    match fprs, short with
    | [], _ => rfl
    | [fpr], _ => rfl
  · rw [place]
    rfl

/-! ### The report -/

/-- What is reported of the mismatches, until a lookup fails. -/
def report (getDevice : SmsqlFpr → Option Bytes) : List (Mismatch SmsqlFpr) → List XkeyLine × Bool
  | [] => ([], true)
  | .gone fpr :: rest =>
    (.deleted fpr :: (report getDevice rest).1, (report getDevice rest).2)
  | .fresh fpr :: rest =>
    match getDevice fpr with
    | none => ([], false)
    | some pubkey => (.created pubkey :: (report getDevice rest).1, (report getDevice rest).2)

variable {getDevice : SmsqlFpr → Option Bytes}

/-- The loop of `report_changes` is the walk through the two lists. -/
theorem reportLoop_eq (olds news : List SmsqlFpr) :
    reportLoop getDevice olds news = report getDevice (walk olds news) := by
  fun_induction walk olds news with
  | case1 news =>
    induction news with
    | nil => simp [reportLoop, report]
    | cons new news ih =>
      rw [reportLoop.eq_def]
      simp only [head?_nil, head?_cons, smsqlDstrCmp]
      cases found : getDevice new with
      | none => simp [report, found]
      | some pubkey => simp [report, found, ih]
  | case2 old olds ih =>
    rw [reportLoop.eq_def]
    simp [smsqlDstrCmp, report, ih]
  | case3 olds new news ih =>
    rw [reportLoop.eq_def]
    simp [smsqlDstrCmp, SmsqlFpr.dstrCmp2_eq_zero.mpr rfl, ih]
  | case4 old olds new news apart lt ih =>
    rw [reportLoop.eq_def]
    simp [smsqlDstrCmp, mt SmsqlFpr.dstrCmp2_eq_zero.mp apart,
      (SmsqlFpr.dstrCmp2_lt_zero apart).mpr lt, report, ih]
  | case5 old olds new news apart order ih =>
    rw [reportLoop.eq_def]
    simp only [head?_cons, smsqlDstrCmp, mt SmsqlFpr.dstrCmp2_eq_zero.mp apart,
      mt (SmsqlFpr.dstrCmp2_lt_zero apart).mp order, if_false]
    cases found : getDevice new with
    | none => simp [report, found]
    | some pubkey => simp [report, found, ih]

variable {mismatches : List (Mismatch SmsqlFpr)} {fpr : SmsqlFpr}

theorem report_done :
    (report getDevice mismatches).2 = true ↔
      ∀ fpr, .fresh fpr ∈ mismatches → getDevice fpr ≠ none := by
  induction mismatches with
  | nil => simp [report]
  | cons mismatch rest ih =>
    cases mismatch with
    | gone old => simp [report, ih]
    | fresh new =>
      cases found : getDevice new with
      | none =>
        simp only [report, found, Bool.false_eq_true, false_iff, not_forall]
        exact ⟨new, mem_cons_self, not_not.mpr found⟩
      | some pubkey => simp [report, found, ih]

theorem deleted_mem_report (done : (report getDevice mismatches).2 = true) :
    .deleted fpr ∈ (report getDevice mismatches).1 ↔ .gone fpr ∈ mismatches := by
  induction mismatches with
  | nil => simp [report]
  | cons mismatch rest ih =>
    cases mismatch with
    | gone old => simp [report, ih (by simpa [report] using done)]
    | fresh new =>
      cases found : getDevice new with
      | none => simp [report, found] at done
      | some pubkey => simp [report, found, ih (by simpa [report, found] using done)]

end Xkeysync

/-- The client adds a key with the fingerprint on the line. -/
def XkeyLine.creates (ssl : PemReader) (fpr : SmsqlFpr) : XkeyLine → Bool
  | .created pubkey => (ssl.keypairFromPubkeyPem pubkey).map bin2hex = some fpr.text
  | _ => false

/-- The line tells a difference. -/
def XkeyLine.isReport : XkeyLine → Bool
  | .deleted _ => true
  | .created _ => true
  | _ => false

namespace Xkeysync

variable {getDevice : SmsqlFpr → Option Bytes} {mismatches : List (Mismatch SmsqlFpr)}
  {fpr : SmsqlFpr}

/-- The complete report has a key for each fingerprint that is fresh. -/
theorem countP_creates_report {rows : DeviceRows ssl}
    (done : (report rows.getDevice mismatches).2 = true) :
    (report rows.getDevice mismatches).1.countP (creates ssl fpr) =
      mismatches.count (.fresh fpr) := by
  induction mismatches with
  | nil => rfl
  | cons mismatch rest ih =>
    cases mismatch with
    | gone old =>
      rw [report, count_fresh_gone_cons, countP_cons, ih (by simpa [report] using done)]
      rfl
    | fresh new =>
      cases found : rows.getDevice new with
      | none => simp [report, found] at done
      | some pubkey =>
        have tail := ih (by simpa [report, found] using done)
        have creates : creates ssl fpr (.created pubkey) = decide (new = fpr) := by
          rw [creates, rows.keyed new pubkey found]
          simp [SmsqlFpr.ext_iff]
        simp only [report, found]
        rw [countP_cons, tail, creates, count_cons]
        simp

theorem isReport_of_mem_report {line : XkeyLine} (among : line ∈ (report getDevice mismatches).1) :
    line.isReport = true := by
  induction mismatches with
  | nil => cases among
  | cons mismatch rest ih =>
    cases mismatch with
    | gone old =>
      rcases mem_cons.mp among with rfl | later
      · rfl
      · exact ih later
    | fresh new =>
      cases found : getDevice new with
      | none => simp [report, found] at among
      | some pubkey =>
        simp only [report, found] at among
        rcases mem_cons.mp among with rfl | later
        · rfl
        · exact ih later

/-! ### What a report should be -/

/-- The report is the difference of the two lists. -/
structure Exact (ssl : PemReader) (known fprs : List SmsqlFpr) (lines : List XkeyLine) : Prop where
  deleted : ∀ fpr, .deleted fpr ∈ lines ↔ fpr ∈ known ∧ fpr ∉ fprs
  created : ∀ fpr, lines.countP (creates ssl fpr) = if fpr ∈ fprs ∧ fpr ∉ known then 1 else 0
  ok : .ok ∈ lines ↔ ∃ line ∈ lines, line.isReport = true

/-- No lookup fails of those that a check makes. -/
def Found (rows : DeviceRows ssl) (known fprs : List SmsqlFpr) : Prop :=
  ∀ fpr ∈ fprs, fpr ∉ known → rows.getDevice fpr ≠ none

/-- The client can add the keys that are new. -/
def Addable (rows : DeviceRows ssl) (fate : Bytes → AddFate) (known fprs : List SmsqlFpr) : Prop :=
  ∀ fpr ∈ fprs, fpr ∉ known → ∀ pubkey ∈ rows.getDevice fpr, fate pubkey = .written

variable {rows : DeviceRows ssl} {known fprs : List SmsqlFpr}

theorem count_strict (strict : fprs.Pairwise (· < ·)) (fpr : SmsqlFpr) :
    fprs.count fpr = if fpr ∈ fprs then 1 else 0 :=
  Nodup.count (strict.imp fun lt => ne_of_lt lt)

section

variable (sorted : known.Pairwise (· ≤ ·))

include sorted

theorem fresh_mem_walk (strict : fprs.Pairwise (· < ·)) :
    .fresh fpr ∈ walk known fprs ↔ fpr ∈ fprs ∧ fpr ∉ known := by
  rw [← count_pos_iff, count_walk_fresh sorted (strict.imp fun lt => le_of_lt lt),
    count_strict strict, ← count_eq_zero]
  split_ifs with mem
  · rw [and_iff_right mem]
    omega
  · simp [mem]

theorem gone_mem_walk (strict : fprs.Pairwise (· < ·)) :
    .gone fpr ∈ walk known fprs ↔ (if fpr ∈ fprs then 1 else 0) < known.count fpr := by
  rw [← count_pos_iff, count_walk_gone sorted (strict.imp fun lt => le_of_lt lt),
    count_strict strict]
  exact Nat.sub_pos_iff_lt

theorem report_found (strict : fprs.Pairwise (· < ·)) :
    (report rows.getDevice (walk known fprs)).2 = true ↔ Found rows known fprs := by
  rw [report_done]
  refine forall_congr' fun fpr => ?_
  rw [fresh_mem_walk sorted strict]
  exact ⟨fun found mem unknown => found ⟨mem, unknown⟩, fun found both => found both.1 both.2⟩

theorem reportChanges_found (strict : fprs.Pairwise (· < ·)) (found : Found rows known fprs) :
    reportChanges rows.getDevice known fprs =
      (if (report rows.getDevice (walk known fprs)).1.isEmpty then
          (report rows.getDevice (walk known fprs)).1
        else (report rows.getDevice (walk known fprs)).1 ++ [.ok], some fprs) := by
  rw [reportChanges, reportLoop_eq]
  simp only [(report_found sorted strict).mpr found, if_true]

/-- A complete report is exact if and only if no fingerprint of the database is known twice. -/
theorem exact_iff (strict : fprs.Pairwise (· < ·)) (found : Found rows known fprs) :
    Exact ssl known fprs (reportChanges rows.getDevice known fprs).1 ↔
      ∀ fpr ∈ fprs, known.count fpr ≤ 1 := by
  have done := (report_found sorted strict).mpr found
  have lines := congrArg Prod.fst (reportChanges_found sorted strict found)
  have deleted (fpr : SmsqlFpr) : .deleted fpr ∈ (reportChanges rows.getDevice known fprs).1 ↔
      (if fpr ∈ fprs then 1 else 0) < known.count fpr := by
    rw [← gone_mem_walk sorted strict, ← deleted_mem_report done, lines]
    split_ifs <;> simp
  constructor
  · intro exact fpr mem
    have absent := mt (exact.deleted fpr).mp fun both => both.2 mem
    rw [deleted, if_pos mem] at absent
    exact Nat.not_lt.mp absent
  · intro once
    refine ⟨fun fpr => ?_, fun fpr => ?_, ?_⟩
    · rw [deleted]
      by_cases mem : fpr ∈ fprs
      · simp [mem, once fpr mem]
      · simp [mem, count_pos_iff]
    · have counted : (reportChanges rows.getDevice known fprs).1.countP (creates ssl fpr) =
          (walk known fprs).count (.fresh fpr) := by
        rw [← countP_creates_report done, lines]
        split_ifs <;> simp [creates]
      rw [counted, count_walk_fresh sorted (strict.imp fun lt => le_of_lt lt), count_strict strict]
      by_cases mem : fpr ∈ known
      · have some := count_pos_iff.mpr mem
        simp only [mem, not_true, and_false, if_false]
        split_ifs <;> omega
      · simp [mem, count_eq_zero.mpr mem]
    · rw [lines]
      cases reported : (report rows.getDevice (walk known fprs)).1 with
      | nil => simp
      | cons line rest =>
        have first : line.isReport = true :=
          isReport_of_mem_report (reported ▸ mem_cons_self : line ∈ _)
        simp [first]

end

end Xkeysync

/-! ### What the client makes of a report -/

namespace XkeyClient

variable {fate : Bytes → AddFate} {client : XkeyClient} {known : List SmsqlFpr} {fpr : SmsqlFpr}

theorem bin2hex_injective : Function.Injective bin2hex := fun first second same => by
  have read := hex2bin_bin2hex first
  rw [same, hex2bin_bin2hex] at read
  exact (Except.ok.inj read).symm

theorem text_injective : Function.Injective SmsqlFpr.text := fun _ _ => SmsqlFpr.ext

/-- The client holds the keys with the fingerprints of a list, each as often. -/
def Holds (client : XkeyClient) (known : List SmsqlFpr) : Prop :=
  (client.held.map bin2hex).Perm (known.map SmsqlFpr.text)

theorem Holds.erase {next : XkeyClient} {bin : Bytes} (holds : Holds client known)
    (hex : fpr.text = bin2hex bin) (erased : next.held = client.held.erase bin) :
    Holds next (known.erase fpr) := by
  rw [Holds, erased, map_erase bin2hex_injective, map_erase text_injective, hex]
  exact Perm.erase _ holds

theorem deleted_mykey (holds : Holds client known) (needed : client.needMykey = false)
    (hex : fpr.text = bin2hex client.keys.mykey.fingerprint) :
    client.checkXkeysync ssl fate (.deleted fpr) = { client with needMykey := true } ∧
      Holds { client with needMykey := true } (known.erase fpr) := by
  constructor
  · simp [checkXkeysync, hex, hex2bin_bin2hex]
  · refine holds.erase hex ?_
    simp [held, needed]

/-- The key of a peer is deleted. -/
theorem deleted_peer {bin : Bytes} (holds : Holds client known) (hex : fpr.text = bin2hex bin)
    (other : bin ≠ client.keys.mykey.fingerprint) :
    client.checkXkeysync ssl fate (.deleted fpr) =
        { client with keys := client.keys.deleteKey bin true } ∧
      Holds { client with keys := client.keys.deleteKey bin true } (known.erase fpr) := by
  constructor
  · simp [checkXkeysync, hex, hex2bin_bin2hex, other]
  · have unlinked : fprs (client.keys.deleteKey bin true).peers =
        (fprs client.keys.peers).erase bin := fprs_unlinkFirst
    refine holds.erase hex ?_
    rw [held, held, unlinked, erase_append_right]
    · rfl
    · split_ifs
      · exact not_mem_nil
      · exact fun same => other (mem_singleton.mp same)

/-- A key comes. -/
theorem created_peer {rows : DeviceRows ssl} {pubkey : Bytes} (holds : Holds client known)
    (well : client.crashed = false) (found : rows.getDevice fpr = some pubkey)
    (written : fate pubkey = .written) :
    ∃ keys : KeydirKeys, client.checkXkeysync ssl fate (.created pubkey) = { client with keys } ∧
      keys.mykey = client.keys.mykey ∧ Holds { client with keys } (known ++ [fpr]) := by
  obtain ⟨bin, read, hex⟩ := Option.map_eq_some_iff.mp (rows.keyed fpr pubkey found)
  have same : (client.keys.addKey ssl pubkey .written).mykey = client.keys.mykey := by
    simp [addKey, read, link]
  have added : client.checkXkeysync ssl fate (.created pubkey) =
      { client with keys := client.keys.addKey ssl pubkey .written } := by
    simp [checkXkeysync, read, written, ← well]
  refine ⟨client.keys.addKey ssl pubkey .written, added, same, ?_⟩
  · have linked : fprs (client.keys.addKey ssl pubkey .written).peers =
        fprs client.keys.peers ++ [bin] := by
      rw [addKey, read]
      exact fprs_link _ bin
    have grown : held { client with keys := client.keys.addKey ssl pubkey .written } =
        client.held ++ [bin] := by
      rw [held, held, linked, same, append_assoc]
    rw [Holds, grown, map_append, map_append]
    exact holds.append (by rw [map_singleton, map_singleton, hex])

/-- The client follows a complete report, if what is gone are fingerprints in hex, and our own at
most once and only while it is there. -/
theorem receive_report {rows : DeviceRows ssl} {mismatches : List (Mismatch SmsqlFpr)}
    (done : (report rows.getDevice mismatches).2 = true) (well : client.crashed = false)
    (holds : Holds client known)
    (hexed : ∀ fpr, .gone fpr ∈ mismatches → ∃ bin, fpr.text = bin2hex bin)
    (own : ∀ fpr, fpr.text = bin2hex client.keys.mykey.fingerprint →
      mismatches.count (.gone fpr) ≤ if client.needMykey then 0 else 1)
    (written : ∀ fpr, .fresh fpr ∈ mismatches → ∀ pubkey ∈ rows.getDevice fpr, fate pubkey = .written) :
    (client.receive ssl fate (report rows.getDevice mismatches).1).crashed = false ∧
      Holds (client.receive ssl fate (report rows.getDevice mismatches).1)
        (mismatches.foldl follow known) := by
  induction mismatches generalizing client known with
  | nil => exact ⟨well, holds⟩
  | cons mismatch rest ih =>
    have later (fpr : SmsqlFpr) (mem : .gone fpr ∈ rest) : ∃ bin, fpr.text = bin2hex bin :=
      hexed fpr (.tail _ mem)
    have addable (fpr : SmsqlFpr) (mem : .fresh fpr ∈ rest) :
        ∀ pubkey ∈ rows.getDevice fpr, fate pubkey = .written := written fpr (.tail _ mem)
    cases mismatch with
    | gone fpr =>
      have tail : (report rows.getDevice rest).2 = true := done
      have first : client.receive ssl fate (report rows.getDevice (.gone fpr :: rest)).1 =
          (client.checkXkeysync ssl fate (.deleted fpr)).receive ssl fate
            (report rows.getDevice rest).1 := by
        simp [receive, report, well]
      obtain ⟨bin, hex⟩ := hexed fpr mem_cons_self
      rw [first, foldl_cons, follow]
      by_cases mine : bin = client.keys.mykey.fingerprint
      · subst mine
        have once := own fpr hex
        rw [count_cons_self] at once
        have needed : client.needMykey = false := by
          cases deleted : client.needMykey with
          | false => rfl
          | true =>
            rw [deleted, if_pos rfl] at once
            exact absurd once (Nat.not_succ_le_zero _)
        obtain ⟨checked, erased⟩ := @deleted_mykey ssl fate _ _ _ holds needed hex
        rw [checked]
        refine ih tail well erased later (fun other same => ?_) addable
        have equal : other = fpr := SmsqlFpr.ext (same.trans hex.symm)
        rw [needed, if_neg Bool.false_ne_true] at once
        rw [equal, if_pos rfl]
        exact Nat.le_of_succ_le_succ once
      · obtain ⟨checked, erased⟩ := @deleted_peer ssl fate _ _ _ _ holds hex mine
        rw [checked]
        refine ih tail well erased later (fun other same => ?_) addable
        exact le_trans (count_le_count_cons ..) (own other same)
    | fresh fpr =>
      cases found : rows.getDevice fpr with
      | none => simp [report, found] at done
      | some pubkey =>
        have tail : (report rows.getDevice rest).2 = true := by
          simpa [report, found] using done
        obtain ⟨keys, checked, same, grown⟩ :=
          created_peer holds well found (written fpr mem_cons_self pubkey found)
        have first : client.receive ssl fate (report rows.getDevice (.fresh fpr :: rest)).1 =
            ({ client with keys } : XkeyClient).receive ssl fate
              (report rows.getDevice rest).1 := by
          rw [← checked]
          simp [receive, report, found, well]
        rw [first, foldl_cons, follow]
        refine ih tail well grown later (fun other equal => ?_) addable
        have mine := own other (equal.trans (congrArg (fun kp => bin2hex kp.fingerprint) same))
        rwa [count_gone_fresh_cons] at mine

@[simp] theorem receive_append_ok (client : XkeyClient) (lines : List XkeyLine) :
    client.receive ssl fate (lines ++ [.ok]) = client.receive ssl fate lines := by
  simp [receive, checkXkeysync]

@[simp] theorem receive_append_plus (client : XkeyClient) (lines : List XkeyLine) :
    client.receive ssl fate (lines ++ [.plus]) = client.receive ssl fate lines := by
  simp [receive, checkXkeysync]

end XkeyClient

/-! ### Runs -/

namespace Xkeysyncing

open Xkeysync

/-- What is promised of a check: its report is exact, it moves what the client is known to hold to the
list of the database if all lookups succeed and leaves it otherwise, and the client holds just that. -/
structure Promise (w : Xkeysyncing) (event : XkeysyncEvent ssl) (next : Xkeysyncing) : Prop where
  exact : ∀ rows fate fprs, event = .check rows fate → rows.fprs = some fprs →
    Found rows w.ctx.knownFprs fprs.val →
      next.ctx.knownFprs = fprs.val ∧ Exact ssl w.ctx.knownFprs fprs.val next.lines
  kept : (∀ rows fate fprs, event = .check rows fate → rows.fprs = some fprs →
    ¬ Found rows w.ctx.knownFprs fprs.val) → next.ctx.knownFprs = w.ctx.knownFprs
  agrees : ∀ text, text ∈ next.client.held.map bin2hex ↔ text ∈ next.ctx.knownFprs.map SmsqlFpr.text

/-- Where all lookups of a check succeed, no fingerprint of the database is known twice, and our own is
not either, and the client can add the new keys. Where one fails, it is the first one that does, and
nothing is to be reported before it. -/
def Steady (w : Xkeysyncing) : XkeysyncEvent ssl → Prop
  | .input _ => True
  | .check rows fate => ∀ fprs, rows.fprs = some fprs →
    (Found rows w.ctx.knownFprs fprs.val →
      (∀ fpr, fpr ∈ fprs.val ∨ fpr.text = bin2hex w.client.keys.mykey.fingerprint →
        w.ctx.knownFprs.count fpr ≤ 1) ∧
      Addable rows fate w.ctx.knownFprs fprs.val) ∧
    (¬ Found rows w.ctx.knownFprs fprs.val →
      ∃ fpr ∈ fprs.val, fpr ∉ w.ctx.knownFprs ∧ rows.getDevice fpr = none ∧
        ∀ lesser, lesser < fpr → w.ctx.knownFprs.count lesser = fprs.val.count lesser)

/-- Between two checks the client holds what it is known to hold. -/
structure Sound (w : Xkeysyncing) : Prop where
  sorted : w.ctx.knownFprs.Pairwise (· ≤ ·)
  well : w.client.crashed = false
  holds : w.client.Holds w.ctx.knownFprs

theorem Sound.agrees {w : Xkeysyncing} (sound : Sound w) (text : Bytes) :
    text ∈ w.client.held.map bin2hex ↔ text ∈ w.ctx.knownFprs.map SmsqlFpr.text :=
  sound.holds.mem_iff

variable {rows : DeviceRows ssl} {fate : Bytes → AddFate} {known : List SmsqlFpr}
  {fprs : {list : List SmsqlFpr // list.Pairwise (· < ·)}}

/-- Where the first thing to report is a key that is not found, nothing is sent. -/
theorem reportChanges_unfound (sorted : known.Pairwise (· ≤ ·))
    (first : ∃ fpr ∈ fprs.val, fpr ∉ known ∧ rows.getDevice fpr = none ∧
      ∀ lesser, lesser < fpr → known.count lesser = fprs.val.count lesser) :
    reportChanges rows.getDevice known fprs.val = ([], none) := by
  obtain ⟨fpr, mem, unknown, unfound, below⟩ := first
  obtain ⟨rest, walked⟩ := walk_first sorted (fprs.property.imp fun lt => le_of_lt lt)
    mem unknown below
  rw [reportChanges, reportLoop_eq, walked]
  simp [report, unfound]

/-- Where nothing is known twice that may not be, the client follows a complete check. -/
theorem receive_reportChanges {client : XkeyClient} (sorted : known.Pairwise (· ≤ ·))
    (well : client.crashed = false) (needed : client.needMykey = false) (holds : client.Holds known)
    (found : Found rows known fprs.val)
    (once : ∀ fpr, fpr.text = bin2hex client.keys.mykey.fingerprint → known.count fpr ≤ 1)
    (written : Addable rows fate known fprs.val) :
    ∃ lines, reportChanges rows.getDevice known fprs.val = (lines, some fprs.val) ∧
      (client.receive ssl fate lines).crashed = false ∧ (client.receive ssl fate lines).Holds fprs.val := by
  have done := (report_found sorted fprs.property).mpr found
  refine ⟨_, reportChanges_found sorted fprs.property found, ?_⟩
  have received := @XkeyClient.receive_report ssl fate client known rows _ done well holds ?_ ?_ ?_
  · have followed : ((walk known fprs.val).foldl follow known).Perm fprs.val :=
      foldl_follow (Perm.refl known)
    have moved := received.2.trans (followed.map SmsqlFpr.text)
    split_ifs
    · exact ⟨received.1, moved⟩
    · rw [receive_append_ok]
      exact ⟨received.1, moved⟩
  · intro fpr gone
    have before := (gone_mem_walk sorted fprs.property).mp gone
    have among : fpr.text ∈ known.map SmsqlFpr.text :=
      mem_map_of_mem (count_pos_iff.mp (Nat.zero_lt_of_lt before))
    obtain ⟨bin, -, hex⟩ := mem_map.mp (holds.mem_iff.mpr among)
    exact ⟨bin, hex.symm⟩
  · intro fpr mine
    rw [needed, if_neg Bool.false_ne_true, count_walk_gone sorted
      (fprs.property.imp fun lt => le_of_lt lt)]
    exact (Nat.sub_le _ _).trans (once fpr mine)
  · intro fpr fresh
    obtain ⟨mem, unknown⟩ := (fresh_mem_walk sorted fprs.property).mp fresh
    exact written fpr mem unknown

theorem checkerTimeout_eq (ctx : XkeysyncContext) (rows : DeviceRows ssl) :
    (ctx.checkerTimeout rows).1.knownFprs = (ctx.xkeysyncCheckNow rows).1.knownFprs ∧
      (ctx.checkerTimeout rows).2 = (ctx.xkeysyncCheckNow rows).2.1 := by
  rw [checkerTimeout]
  obtain ⟨checked, lines, failure⟩ := ctx.xkeysyncCheckNow rows
  cases failure with
  | true => exact ⟨rfl, rfl⟩
  | false => exact ⟨rfl, rfl⟩

theorem cmdXkeysync_eq (ctx : XkeysyncContext) (rows : DeviceRows ssl) :
    (ctx.cmdXkeysync rows).1.knownFprs = (ctx.xkeysyncCheckNow rows).1.knownFprs ∧
      ((ctx.cmdXkeysync rows).2 = (ctx.xkeysyncCheckNow rows).2.1 ∨
        (ctx.cmdXkeysync rows).2 = (ctx.xkeysyncCheckNow rows).2.1 ++ [.plus]) := by
  rw [cmdXkeysync]
  obtain ⟨checked, lines, failure⟩ := ctx.xkeysyncCheckNow rows
  cases failure with
  | true => exact ⟨rfl, .inl rfl⟩
  | false => exact ⟨rfl, .inr rfl⟩

/-- What a check sends, and what the two sides make of it. -/
theorem step_check {w next : Xkeysyncing} (stepped : step ssl w (.check rows fate) = .ok next) :
    w.client.needMykey = false ∧
      next.ctx.knownFprs = (w.ctx.xkeysyncCheckNow rows).1.knownFprs ∧
      (next.lines = (w.ctx.xkeysyncCheckNow rows).2.1 ∨
        next.lines = (w.ctx.xkeysyncCheckNow rows).2.1 ++ [.plus]) ∧
      next.client = w.client.receive ssl fate (w.ctx.xkeysyncCheckNow rows).2.1 := by
  rw [step] at stepped
  split at stepped
  · cases stepped
  · next going =>
    have needed : w.client.needMykey = false := by
      simp only [Bool.or_eq_true, not_or, Bool.not_eq_true] at going
      exact going.1.2
    refine ⟨needed, ?_⟩
    by_cases started : w.ctx.started = true
    · obtain ⟨known, sent⟩ := checkerTimeout_eq w.ctx rows
      simp only [started, if_true] at stepped
      cases stepped
      exact ⟨known, .inl sent, congrArg (w.client.receive ssl fate) sent⟩
    · obtain ⟨known, sent⟩ := cmdXkeysync_eq w.ctx rows
      simp only [started, if_false, Bool.false_eq_true] at stepped
      cases stepped
      refine ⟨known, sent, ?_⟩
      rcases sent with same | more
      · exact congrArg (w.client.receive ssl fate) same
      · exact (congrArg (w.client.receive ssl fate) more).trans (receive_append_plus _ _)

theorem exact_append_plus {lines : List XkeyLine} {news : List SmsqlFpr}
    (exact : Exact ssl known news lines) : Exact ssl known news (lines ++ [.plus]) := by
  refine ⟨fun fpr => ?_, fun fpr => ?_, ?_⟩
  · rw [← exact.deleted fpr]
    simp
  · rw [← exact.created fpr]
    simp [creates]
  · simpa [isReport, or_and_right, exists_or] using exact.ok

/-- A check whose lookups all succeed. -/
theorem check_found {w next : Xkeysyncing} (sound : Sound w) (listed : rows.fprs = some fprs)
    (found : Found rows w.ctx.knownFprs fprs.val)
    (once : ∀ fpr, fpr ∈ fprs.val ∨ fpr.text = bin2hex w.client.keys.mykey.fingerprint →
      w.ctx.knownFprs.count fpr ≤ 1)
    (written : Addable rows fate w.ctx.knownFprs fprs.val) (stepped : step ssl w (.check rows fate) = .ok next) :
    next.ctx.knownFprs = fprs.val ∧ Exact ssl w.ctx.knownFprs fprs.val next.lines ∧ Sound next := by
  obtain ⟨needed, known, sent, client⟩ := step_check stepped
  obtain ⟨lines, changes, well, holds⟩ := receive_reportChanges sound.sorted sound.well needed
    sound.holds found (fun fpr mine => once fpr (.inr mine)) written
  have exact := (exact_iff sound.sorted fprs.property found).mpr fun fpr mem =>
    once fpr (.inl mem)
  have checked : w.ctx.xkeysyncCheckNow rows =
      ({ w.ctx with knownFprs := fprs.val }, lines, false) := by
    rw [xkeysyncCheckNow, listed]
    simp only [changes]
  rw [changes] at exact
  rw [checked] at known sent client
  refine ⟨known, ?_, ⟨?_, ?_, ?_⟩⟩
  · rcases sent with same | more
    · exact same ▸ exact
    · exact more ▸ exact_append_plus exact
  · exact known ▸ fprs.property.imp fun lt => le_of_lt lt
  · exact client ▸ well
  · exact known ▸ client ▸ holds

/-- A check that sends nothing and leaves what is known. -/
theorem check_unfound {w next : Xkeysyncing} (sound : Sound w)
    (checked : w.ctx.xkeysyncCheckNow rows = (w.ctx, [], true))
    (stepped : step ssl w (.check rows fate) = .ok next) :
    next.ctx.knownFprs = w.ctx.knownFprs ∧ Sound next := by
  obtain ⟨-, known, -, client⟩ := step_check stepped
  rw [checked] at known client
  refine ⟨known, ⟨known ▸ sound.sorted, ?_, ?_⟩⟩
  · exact client ▸ sound.well
  · exact known ▸ client ▸ sound.holds

/-- A check that reports nothing wrong keeps the promise and leaves the two sides in step. -/
theorem step_promise (w : Xkeysyncing) (event : XkeysyncEvent ssl) (sound : Sound w)
    (steady : Steady w event) (next : Xkeysyncing) (stepped : step ssl w event = .ok next) :
    Promise w event next ∧ Sound next := by
  cases event with
  | input line =>
    rw [step] at stepped
    split at stepped
    · cases stepped
    · cases stepped
      have kept : Sound { w with
          ctx := { w.ctx with finished := some (isDone line) } } :=
        ⟨sound.sorted, sound.well, sound.holds⟩
      exact ⟨⟨nofun, fun _ => rfl, kept.agrees⟩, kept⟩
  | check rows fate =>
    cases listed : rows.fprs with
    | none =>
      obtain ⟨known, kept⟩ := check_unfound sound (by rw [xkeysyncCheckNow, listed]) stepped
      refine ⟨⟨fun other _ fprs same there => ?_, fun _ => known, kept.agrees⟩, kept⟩
      cases same
      rw [listed] at there
      cases there
    | some fprs =>
      by_cases found : Found rows w.ctx.knownFprs fprs.val
      · obtain ⟨once, written⟩ := (steady fprs listed).1 found
        obtain ⟨known, exact, kept⟩ := check_found sound listed found once written stepped
        refine ⟨⟨fun other _ others same there => ?_, fun unfound => ?_, kept.agrees⟩, kept⟩
        · cases same
          cases listed.symm.trans there
          exact fun _ => ⟨known, exact⟩
        · exact absurd found (unfound rows fate fprs rfl listed)
      · have changes := reportChanges_unfound sound.sorted ((steady fprs listed).2 found)
        obtain ⟨known, kept⟩ := check_unfound sound
          (by rw [xkeysyncCheckNow, listed]; simp only [changes]) stepped
        refine ⟨⟨fun other _ others same there => ?_, fun _ => known, kept.agrees⟩, kept⟩
        cases same
        cases listed.symm.trans there
        exact fun known => absurd known found

/-- A command starts with what the client holds, if the client sends that. -/
theorem start_sound {sent : List SmsqlFpr} {keys : KeydirKeys}
    (sends : (sent.map SmsqlFpr.text).Perm (xkeysyncCmd keys)) : Sound (start sent keys) := by
  refine ⟨?_, rfl, ?_⟩
  · rw [start, sortFprs_eq]
    exact pairwise_insertionSort _ _
  · have sorted : (sortFprs sent).Perm sent := by
      rw [sortFprs_eq]
      exact perm_insertionSort _ _
    have all : ((start sent keys).client.held.map bin2hex) = xkeysyncCmd keys := by
      simp [held, start, xkeysyncCmd, fprs]
    rw [XkeyClient.Holds, all]
    exact sends.symm.trans (sorted.map SmsqlFpr.text).symm

/-- The sorted list that a command starts with is what was sent; a complete report is exact if and only
if no fingerprint of the database is known twice; and where a client sends what it holds, every check of
a steady run keeps the promise. -/
theorem xkeysync_exact (sent : List SmsqlFpr) :
    ((sortFprs sent).Perm sent ∧ (sortFprs sent).Pairwise (· ≤ ·)) ∧
      (∀ (rows : DeviceRows ssl) (fprs : {list : List SmsqlFpr // list.Pairwise (· < ·)}),
        rows.fprs = some fprs → Found rows (sortFprs sent) fprs.val →
          (Exact ssl (sortFprs sent) fprs.val
              (reportChanges rows.getDevice (sortFprs sent) fprs.val).1 ↔
            ∀ fpr ∈ fprs.val, sent.count fpr ≤ 1)) ∧
      ∀ (keys : KeydirKeys) (events : List (XkeysyncEvent ssl)),
        (sent.map SmsqlFpr.text).Perm (xkeysyncCmd keys) →
        Run.Guarded (step ssl) Steady (start sent keys) events →
          Run.Throughout (step ssl) Promise (start sent keys) events := by
  have perm : (sortFprs sent).Perm sent := by
    rw [sortFprs_eq]
    exact perm_insertionSort _ _
  have sorted : (sortFprs sent).Pairwise (· ≤ ·) := by
    rw [sortFprs_eq]
    exact pairwise_insertionSort _ _
  refine ⟨⟨perm, sorted⟩, fun rows fprs _ found => ?_, fun keys events sends guarded => ?_⟩
  · rw [exact_iff sorted fprs.property found]
    exact forall₂_congr fun fpr _ => by rw [perm.count_eq]
  · refine @Run.Guarded.throughout _ _ _ (step ssl) Steady _ _ Sound (fun _ => True) Promise ?_ ?_
      (start_sound sends) guarded
    · intro w event sound steady
      cases stepped : step ssl w event with
      | ok next => exact (step_promise w event sound steady next stepped).2
      | error fault => trivial
    · exact fun w event sound steady next stepped =>
        (step_promise w event sound steady next stepped).1

/-! ### A few commands -/

/-- The fingerprint of 32 equal bytes. -/
def fprOf (byte : UInt8) : SmsqlFpr := ⟨bin2hex (replicate 32 byte), rfl⟩

/-- Keys whose text is their fingerprint in hex. -/
def plainReader : PemReader where
  pubkey := fun pem => (hex2bin pem).toOption
  privateKey := fun _ => none

/-- A client with a key of its own and peers. -/
def keysOf (mine : UInt8) (peers : List UInt8) : KeydirKeys where
  dir := []
  mykey := ⟨0, replicate 32 mine⟩
  peers := peers.map fun byte => ⟨1, replicate 32 byte⟩
  allKeys := []
  freed := []
  allocated := 2

/-- A database where the keys are found that are among some. -/
def rowsOf (fprs : {list : List SmsqlFpr // list.Pairwise (· < ·)}) (found : List UInt8) :
    DeviceRows plainReader where
  fprs := some fprs
  getDevice := fun fpr => if fpr ∈ found.map fprOf then some fpr.text else none
  keyed := fun fpr pubkey same => by
    rw [Option.ite_none_right_eq_some] at same
    obtain ⟨mem, text⟩ := same
    obtain ⟨byte, -, equal⟩ := mem_map.mp mem
    have short : (bin2hex (replicate 32 byte)).length ≤ intMax := by
      rw [show (bin2hex (replicate 32 byte)).length = 64 from rfl]
      decide
    have read : plainReader.keypairFromPubkeyPem (bin2hex (replicate 32 byte)) =
        some (replicate 32 byte) := by
      rw [PemReader.keypairFromPubkeyPem, PemReader.readPem, if_neg (Nat.not_lt.mpr short)]
      simp only [plainReader, hex2bin_bin2hex]
      rfl
    cases text
    rw [← equal]
    exact congrArg (Option.map bin2hex) read

/-- One peer is gone and another one is new. -/
theorem xkeysync_exact_replaced :
    Run.Throughout (step plainReader) Promise (start [fprOf 2, fprOf 1] (keysOf 1 [2]))
      [.check (rowsOf ⟨[fprOf 1, fprOf 3], by decide +kernel⟩ [3]) fun _ => .written] := by
  refine (xkeysync_exact [fprOf 2, fprOf 1]).2.2 (keysOf 1 [2]) _ (by decide +kernel)
    ⟨?_, fun _ _ => trivial⟩
  intro fprs listed
  cases listed
  refine ⟨fun _ => ⟨fun fpr _ => ?_, fun _ _ _ _ _ => rfl⟩, fun unfound => absurd ?_ unfound⟩
  · exact nodup_iff_count_le_one.mp (by decide +kernel) fpr
  · unfold Found
    decide +kernel

/-- A key of the database is reported as deleted; and after a lookup that failed, the client holds a key
which it is not known to hold. -/
theorem xkeysync_inexact :
    Outcome.Sat
        (Run.run (step plainReader) (start [fprOf 1, fprOf 2, fprOf 2] (keysOf 1 [2, 2]))
          [.check (rowsOf ⟨[fprOf 1, fprOf 2], by decide +kernel⟩ []) fun _ => .written])
        (fun next => .deleted (fprOf 2) ∈ next.lines ∧ fprOf 2 ∈ next.ctx.knownFprs) (fun _ => False) ∧
      Outcome.Sat
        (Run.run (step plainReader) (start [fprOf 1] (keysOf 1 []))
          [.check (rowsOf ⟨[fprOf 1, fprOf 2, fprOf 3], by decide +kernel⟩ [2]) fun _ => .written])
        (fun next => replicate 32 2 ∈ next.client.held ∧ next.ctx.knownFprs = [fprOf 1])
        (fun _ => False) := by
  decide +kernel

end Xkeysyncing

end Splintermail
