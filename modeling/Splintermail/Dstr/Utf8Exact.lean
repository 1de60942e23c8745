/-
This file proves what the UTF-8 coders of `unicode.c` accept, that they undo each other, and
that it does not matter how the stream's input is cut.

The UTF-8 stream reads a first byte for its bits and as many following bytes as it asks
for, and refuses only the numbers that UTF-16 uses for its pairs. So it accepts exactly
the texts that are cut into forms with other numbers, which is more than UTF-8: a form
with too many bytes and a form of a number above the last codepoint are accepted as well.
Encoding writes the forms of characters only, and they are read back.
-/

import Splintermail.Dstr.Unicode
import Splintermail.Lib.Utf8

namespace Splintermail

open List Utf8 Transcoded

open Transducer

/-! ### One byte of UTF-8 -/

theorem forall_byte {P : UInt8 → Prop} (all : ∀ value : Fin 256, P (UInt8.ofNat value))
    (byte : UInt8) : P byte := by
  have this := all ⟨byte.toNat, byte.toNat_lt⟩
  rwa [UInt8.ofNat_toNat] at this

/-- The masks tell the ranges of the first bytes. -/
theorem lead_masks (u : UInt8) : lead u = if u &&& 0x80 = 0 then some (0, u.toUInt32.toNat)
      else if u &&& 0xE0 = 0xC0 then some (1, (u &&& 0x1F).toUInt32.toNat)
      else if u &&& 0xF0 = 0xE0 then some (2, (u &&& 0x0F).toUInt32.toNat)
      else if u &&& 0xF8 = 0xF0 then some (3, (u &&& 0x0F).toUInt32.toNat)
      else none := by
  revert u
  exact forall_byte (by decide +kernel)

theorem isTail_mask (u : UInt8) : IsTail u ↔ u &&& 0xC0 = 0x80 := by
  have all : ∀ value : Fin 256, (0x80 ≤ (UInt8.ofNat value).toNat ∧
      (UInt8.ofNat value).toNat < 0xC0) ↔ UInt8.ofNat value &&& 0xC0 = 0x80 := by decide +kernel
  exact forall_byte (P := fun u => IsTail u ↔ u &&& 0xC0 = 0x80) all u

variable {codepoint : UInt32}

theorem shift_six (small : codepoint.toNat < 2 ^ 26) (u : UInt8) :
    ((codepoint <<< 6) ||| (u &&& 0x3F).toUInt32).toNat = codepoint.toNat * 64 + u.toNat % 64 := by
  have low : (u &&& 0x3F).toUInt32.toNat = u.toNat % 64 := by
    rw [UInt8.toNat_toUInt32, UInt8.toNat_and]
    exact Nat.and_two_pow_sub_one_eq_mod u.toNat 6
  rw [UInt32.toNat_or, UInt32.toNat_shiftLeft, low]
  show codepoint.toNat <<< 6 % 2 ^ 32 ||| _ = _
  rw [Nat.shiftLeft_eq, Nat.mod_eq_of_lt (by omega), Nat.mul_comm,
    ← Nat.two_pow_add_eq_or_of_lt (by omega)]

theorem utf8Step_lead (codepoint : UInt32) (u : UInt8) :
    utf8Step ⟨codepoint, 0⟩ u = match lead u with
      | none => none
      | some (0, bits) => some (⟨codepoint, 0⟩, [.ofNat bits])
      | some (tail + 1, bits) => some (⟨.ofNat bits, tail + 1⟩, []) := by
  rw [lead_masks, utf8Step]
  dsimp only
  split_ifs <;> simp only [UInt32.ofNat_toNat]

variable {tail : Nat} {u : UInt8}

theorem utf8Step_tail (follows : IsTail u) (small : codepoint.toNat < 2 ^ 26) :
    utf8Step ⟨codepoint, tail + 1⟩ u =
      if 0 < tail then some (⟨.ofNat (codepoint.toNat * 64 + u.toNat % 64), tail⟩, [])
      else if IsSurrogate (codepoint.toNat * 64 + u.toNat % 64) then none
      else some (⟨.ofNat (codepoint.toNat * 64 + u.toNat % 64), 0⟩,
        [.ofNat (codepoint.toNat * 64 + u.toNat % 64)]) := by
  have mask : ¬ u &&& 0xC0 ≠ 0x80 := not_not.mpr ((isTail_mask u).mp follows)
  rw [← shift_six small u, UInt32.ofNat_toNat, utf8Step]
  dsimp only
  rw [if_neg mask]
  rfl

theorem utf8Step_isTail (read : utf8Step ⟨codepoint, tail + 1⟩ u ≠ none) : IsTail u := by
  rw [isTail_mask]
  by_contra other
  rw [utf8Step] at read
  exact read (if_pos other)

/-! ### The bytes that follow -/

theorem extend_ge (tails : List UInt8) (bits : Nat) : bits ≤ extend bits tails := by
  induction tails generalizing bits with
  | nil => exact le_rfl
  | cons u tails ih =>
    rw [extend]
    exact le_trans (by omega) (ih _)

/-- The following bytes that are expected give the number, unless it is refused. -/
theorem run_tails {tails : Bytes} (present : tails ≠ []) (follow : ∀ u ∈ tails, IsTail u)
    (small : extend codepoint.toNat tails < 2 ^ 26) :
    run utf8Step ⟨codepoint, tails.length⟩ tails =
      if IsSurrogate (extend codepoint.toNat tails) then ([], none)
      else ([.ofNat (extend codepoint.toNat tails)],
        some ⟨.ofNat (extend codepoint.toNat tails), 0⟩) := by
  induction tails generalizing codepoint with
  | nil => exact absurd rfl present
  | cons u tails ih =>
    have first := follow u mem_cons_self
    have below : codepoint.toNat < 2 ^ 26 := (extend_ge (u :: tails) _).trans_lt small
    have step : utf8Step ⟨codepoint, tails.length + 1⟩ u = _ := utf8Step_tail first below
    rw [extend] at small
    have number : (UInt32.ofNat (codepoint.toNat * 64 + u.toNat % 64)).toNat =
        codepoint.toNat * 64 + u.toNat % 64 := by
      rw [UInt32.toNat_ofNat']
      exact Nat.mod_eq_of_lt ((extend_ge tails _).trans_lt (small.trans (by decide)))
    rw [extend]
    obtain rfl | more := eq_nil_or_concat' tails
    · rw [length_nil, if_neg (Nat.lt_irrefl 0)] at step
      by_cases surrogate : IsSurrogate (codepoint.toNat * 64 + u.toNat % 64)
      · rw [if_pos surrogate] at step
        rw [length_singleton, run_cons_none step, extend, if_pos surrogate]
      · rw [if_neg surrogate] at step
        rw [length_singleton, run_cons_some step, extend, if_neg surrogate]
        rfl
    · have others : tails ≠ [] := by
        obtain ⟨_, _, rfl⟩ := more
        exact append_ne_nil_of_right_ne_nil _ (cons_ne_nil _ _)
      rw [if_pos (length_pos_iff.mpr others)] at step
      rw [length_cons, run_cons_some step, after_nil]
      rw [← number] at small ⊢
      rw [UInt32.ofNat_toNat]
      exact ih others (fun other mem => follow other (.tail u mem)) small

/-- A run that ends between sequences begins with the following bytes that were expected. -/
theorem tails_of_run {whole : Bytes} {items : List UInt32} {last : Utf8State}
    (ran : run utf8Step ⟨codepoint, tail + 1⟩ whole = (items, some last)) (ended : last.tail = 0) :
    ∃ tails rest, whole = tails ++ rest ∧ tails.length = tail + 1 ∧ ∀ u ∈ tails, IsTail u := by
  induction tail generalizing codepoint whole items with
  | zero =>
    obtain _ | ⟨u, rest⟩ := whole
    · rw [run_nil] at ran
      rw [← Option.some.inj (congrArg Prod.snd ran)] at ended
      exact absurd ended nofun
    · obtain ⟨next, out, more, stepped, -, -⟩ := run_cons_last ran
      have follows : IsTail u := utf8Step_isTail (by rw [stepped]; exact nofun)
      exact ⟨[u], rest, rfl, rfl, forall_mem_singleton.mpr follows⟩
  | succ tail ih =>
    obtain _ | ⟨u, rest⟩ := whole
    · rw [run_nil] at ran
      rw [← Option.some.inj (congrArg Prod.snd ran)] at ended
      exact absurd ended nofun
    · obtain ⟨next, out, more, stepped, -, goesOn⟩ := run_cons_last ran
      have follows : IsTail u := utf8Step_isTail (by rw [stepped]; exact nofun)
      obtain ⟨bits, rfl⟩ : ∃ bits, next = ⟨bits, tail + 1⟩ := by
        rw [utf8Step] at stepped
        dsimp only at stepped
        rw [if_neg (not_not.mpr ((isTail_mask u).mp follows)), if_pos tail.succ_pos] at stepped
        exact ⟨_, (congrArg Prod.fst (Option.some.inj stepped)).symm⟩
      obtain ⟨tails, left, rfl, length, follow⟩ := ih goesOn
      exact ⟨u :: tails, left, rfl, congrArg (· + 1) length, forall_mem_cons.mpr ⟨follows, follow⟩⟩

/-! ### Whole texts -/

/-- Between two sequences. -/
def Utf8State.Rests (state : Utf8State) : Prop := state.tail = 0

/-- A form that the stream accepts. -/
def Utf8Taken (part : Bytes × Nat) : Prop :=
  Form part.1 part.2 ∧ ¬ IsSurrogate part.2

/-- The codepoint of a form. -/
def utf8Item (part : Bytes × Nat) : UInt32 := .ofNat part.2

theorem lead_codepoint {bits : Nat} (leads : lead u = some (tail, bits)) :
    (UInt32.ofNat bits).toNat = bits := by
  rw [UInt32.toNat_ofNat']
  obtain ⟨-, low⟩ | ⟨-, low⟩ | ⟨-, low⟩ | ⟨-, low⟩ := lead_bound leads <;>
    exact Nat.mod_eq_of_lt (low.trans (by decide))

/-- A form is read as its number, or refused if that is a surrogate. -/
theorem run_form {text : Bytes} {number : Nat} (form : Form text number) (codepoint : UInt32) :
    ∃ after, run utf8Step ⟨codepoint, 0⟩ text =
      if IsSurrogate number then ([], none) else ([.ofNat number], some ⟨after, 0⟩) := by
  have bound := form.lt
  obtain @⟨u, tails, bits, leads, follow⟩ := form
  have step := utf8Step_lead codepoint u
  rw [leads] at step
  obtain _ | ⟨first, rest⟩ := tails
  · have single : ¬ IsSurrogate bits := by
      obtain ⟨-, low⟩ | ⟨more, -⟩ | ⟨more, -⟩ | ⟨more, -⟩ := lead_bound leads
      · exact fun surrogate => absurd (low.trans_le' surrogate.1) (by decide)
      all_goals exact absurd more nofun
    refine ⟨codepoint, ?_⟩
    rw [extend, if_neg single, run_cons_some step]
    rfl
  · refine ⟨.ofNat (extend bits (first :: rest)), ?_⟩
    have small : extend (UInt32.ofNat bits).toNat (first :: rest) < 2 ^ 26 := by
      rw [lead_codepoint leads]
      exact bound.trans (by decide)
    have rests := run_tails (cons_ne_nil first rest) follow small
    rw [lead_codepoint leads] at rests
    rw [run_cons_some step, after_nil]
    exact rests

/-- A run from rest to rest begins with a form. -/
theorem form_of_run {state last : Utf8State} {whole : Bytes} {items : List UInt32}
    (start : state.Rests) (ended : last.Rests) (present : whole ≠ [])
    (ran : run utf8Step state whole = (items, some last)) :
    ∃ part next rest more, Utf8Taken part ∧ part.1 ≠ [] ∧ whole = part.1 ++ rest ∧
      items = utf8Item part :: more ∧ next.Rests ∧ run utf8Step next rest = (more, some last) := by
  obtain ⟨codepoint, tail⟩ := state
  obtain rfl : tail = 0 := start
  obtain ⟨u, tails, rest, number, rfl, form⟩ : ∃ u tails rest number,
      whole = (u :: tails) ++ rest ∧ Form (u :: tails) number := by
    obtain ⟨u, rest, rfl⟩ := exists_cons_of_ne_nil present
    obtain ⟨next, out, more, stepped, -, goesOn⟩ := run_cons_last ran
    rw [utf8Step_lead] at stepped
    cases leads : lead u with
    | none =>
      rw [leads] at stepped
      exact absurd stepped nofun
    | some result =>
      obtain ⟨_ | tail, bits⟩ := result
      · exact ⟨u, [], rest, _, rfl, .intro leads nofun⟩
      · rw [leads] at stepped
        obtain rfl := congrArg Prod.fst (Option.some.inj stepped)
        obtain ⟨tails, left, rfl, length, follow⟩ := tails_of_run goesOn ended
        exact ⟨u, tails, left, _, rfl, .intro (length ▸ leads) follow⟩
  obtain ⟨after, formed⟩ := run_form form codepoint
  rw [run_append, formed] at ran
  by_cases surrogate : IsSurrogate number
  · rw [if_pos surrogate, andThen_none] at ran
    exact absurd (congrArg Prod.snd ran) nofun
  · rw [if_neg surrogate, andThen_some] at ran
    have left : (run utf8Step ⟨after, 0⟩ rest).2 = some last := congrArg Prod.snd ran
    exact ⟨(u :: tails, number), ⟨after, 0⟩, rest, _, ⟨form, surrogate⟩, form.ne_nil, rfl,
      (congrArg Prod.fst ran).symm, rfl, Prod.ext rfl left⟩

theorem utf8DecodeQuiet_accepts {input : Bytes} {codepoints : List UInt32} :
    utf8DecodeQuiet input = ⟨codepoints, true⟩ ↔
      ∃ last : Utf8State, last.Rests ∧ run utf8Step {} input = (codepoints, some last) := by
  unfold utf8DecodeQuiet utf8DecodeStream ofStream
  generalize run utf8Step {} input = ran
  obtain ⟨out, _ | last⟩ := ran
  · exact ⟨fun same => absurd (congrArg accepted same) nofun,
      fun ⟨_, _, same⟩ => absurd (congrArg Prod.snd same) nofun⟩
  · dsimp only [Option.map_some, Option.any_some]
    constructor
    · intro same
      obtain ⟨rfl, complete⟩ := (mk.injEq _ _ _ _).mp same
      refine ⟨last, show last.tail = 0 from ?_, rfl⟩
      by_contra open'
      rw [if_pos (Nat.pos_of_ne_zero open')] at complete
      exact open' (of_decide_eq_true complete)
    · rintro ⟨_, rests, same⟩
      obtain ⟨rfl, ended⟩ := Prod.mk.inj same
      cases ended
      rw [if_neg (Nat.not_lt.mpr (Nat.le_zero.mpr rests))]
      rfl

/-- What the stream accepts: texts of forms with numbers that are no surrogates. -/
theorem utf8DecodeQuiet_iff {input : Bytes} {codepoints : List UInt32} :
    utf8DecodeQuiet input = ⟨codepoints, true⟩ ↔
      ∃ parts : List (Bytes × Nat), input = parts.flatMap Prod.fst ∧
        codepoints = parts.map utf8Item ∧ ∀ part ∈ parts, Utf8Taken part := by
  rw [utf8DecodeQuiet_accepts]
  constructor
  · rintro ⟨last, ended, ran⟩
    have start : Utf8State.Rests {} := rfl
    exact run_parts form_of_run start ended ran
  · rintro ⟨parts, rfl, rfl, taken⟩
    have start : Utf8State.Rests {} := rfl
    refine run_flatMap parts (fun part mem state start => ?_) start
    obtain ⟨codepoint, tail⟩ := state
    obtain rfl : tail = 0 := start
    obtain ⟨form, number⟩ := taken part mem
    obtain ⟨after, formed⟩ := run_form form codepoint
    rw [if_neg number] at formed
    exact ⟨⟨after, 0⟩, rfl, formed⟩

/-! ### Characters -/

/-- The forms of a text of characters. -/
def charParts (chars : List Char) : List (Bytes × Nat) :=
  chars.map fun char => (String.utf8EncodeChar char, char.val.toNat)

theorem not_surrogate (char : Char) : ¬ IsSurrogate char.val.toNat := by
  rintro ⟨low, high⟩
  obtain below | ⟨above, -⟩ := char.valid <;> omega

section

variable (chars : List Char)

theorem charParts_forms : ∀ part ∈ charParts chars, Utf8Taken part ∧ Proper part.1 part.2 := by
  unfold charParts
  rw [forall_mem_map]
  exact fun char _ =>
    ⟨⟨Form.encodeChar char, not_surrogate char⟩, Proper.encodeChar char⟩

theorem charParts_text : (charParts chars).flatMap Prod.fst = chars.flatMap String.utf8EncodeChar :=
  flatMap_map _ _ _

theorem charParts_items : (charParts chars).map utf8Item = chars.map Char.val := by
  rw [charParts, map_map]
  refine map_congr_left fun char _ => ?_
  exact UInt32.ofNat_toNat

/-- What Lean's encoder writes for characters is accepted, as these characters. -/
theorem utf8DecodeQuiet_chars :
    utf8DecodeQuiet (chars.flatMap String.utf8EncodeChar) = ⟨chars.map Char.val, true⟩ := by
  rw [utf8DecodeQuiet_iff]
  exact ⟨charParts chars, (charParts_text chars).symm, (charParts_items chars).symm,
    fun part mem => (charParts_forms chars part mem).1⟩

end

/-- Forms of characters with as many bytes as they should have make a text of characters. -/
theorem chars_of_proper {parts : List (Bytes × Nat)}
    (each : ∀ part ∈ parts, Utf8Taken part ∧ Proper part.1 part.2) :
    ∃ chars : List Char, parts = charParts chars := by
  induction parts with
  | nil => exact ⟨[], rfl⟩
  | cons part parts ih =>
    obtain ⟨chars, rfl⟩ := ih fun other mem =>
      each other (.tail part mem)
    obtain ⟨⟨form, number⟩, proper⟩ := each part mem_cons_self
    obtain ⟨text, value⟩ := part
    have valid : value.isValidChar := by
      have below := proper.1
      unfold IsSurrogate at number
      dsimp only at number below
      unfold Nat.isValidChar
      omega
    have same : (Char.ofNatAux value valid).val.toNat = value := rfl
    rw [← same] at form proper
    refine ⟨Char.ofNatAux value valid :: chars, ?_⟩
    exact congrArg (· :: charParts chars) (Prod.ext (form.eq_encodeChar proper) same.symm)

/-- The decoder accepts an input if and only if it is a text of characters, and as these. -/
def Utf8Exact (input : Bytes) : Prop :=
  ∀ codepoints, utf8DecodeQuiet input = ⟨codepoints, true⟩ ↔
    ∃ chars : List Char, input = chars.flatMap String.utf8EncodeChar ∧
      codepoints = chars.map Char.val

/-- The input is cut into forms that hold no surrogates, and one of them has too many bytes or a
number above the last codepoint. -/
def Utf8Lenient (input : Bytes) : Prop :=
  ∃ parts : List (Bytes × Nat), input = parts.flatMap Prod.fst ∧
    (∀ part ∈ parts, Form part.1 part.2 ∧ ¬ IsSurrogate part.2) ∧
    ∃ part ∈ parts, ¬ Proper part.1 part.2

theorem utf8Exact_iff (input : Bytes) : Utf8Exact input ↔ ¬ Utf8Lenient input := by
  constructor
  · rintro exact' ⟨parts, rfl, taken, part, mem, improper⟩
    obtain ⟨chars, text, -⟩ := (exact' (parts.map utf8Item)).mp
      (utf8DecodeQuiet_iff.mpr ⟨parts, rfl, rfl, taken⟩)
    rw [← charParts_text] at text
    obtain rfl := forms_unique (fun part mem => (taken part mem).1)
      (fun part mem => (charParts_forms chars part mem).1.1) text
    exact improper (charParts_forms chars part mem).2
  · intro strict codepoints
    constructor
    · intro accepted
      obtain ⟨parts, rfl, rfl, taken⟩ := utf8DecodeQuiet_iff.mp accepted
      obtain ⟨chars, rfl⟩ := chars_of_proper fun part mem =>
        ⟨taken part mem, by_contra fun improper =>
          strict ⟨parts, rfl, taken, part, mem, improper⟩⟩
      exact ⟨chars, charParts_text chars, charParts_items chars⟩
    · rintro ⟨chars, rfl, rfl⟩
      exact utf8DecodeQuiet_chars chars

theorem utf8EncodeQuiet_char (char : Char) :
    utf8EncodeQuiet char.val = some (String.utf8EncodeChar char) := by
  have low := @Char.utf8Size_eq_one_iff char
  have middle := @Char.utf8Size_eq_two_iff char
  have high := @Char.utf8Size_eq_three_iff char
  have top := @Char.utf8Size_eq_four_iff char
  have valid := valid_lt char
  have real := not_surrogate char
  unfold IsSurrogate at real
  unfold utf8EncodeQuiet
  simp only [UInt32.lt_iff_toNat_lt, UInt32.le_iff_toNat_le, UInt32.reduceToNat] at *
  obtain size | size | size | size := Char.utf8Size_eq char
  · rw [if_pos (by omega), String.utf8EncodeChar_eq_singleton size]
  · rw [if_neg (by omega), if_pos (by omega), String.utf8EncodeChar_eq_cons_cons size]
    simp [UInt8.or_comm]
  · rw [if_neg (by omega), if_neg (by omega), if_pos (by omega), if_neg (by omega),
      String.utf8EncodeChar_eq_cons_cons_cons size]
    simp [UInt8.or_comm]
  · rw [if_neg (by omega), if_neg (by omega), if_neg (by omega), if_pos (by omega),
      String.utf8EncodeChar_eq_cons_cons_cons_cons size]
    simp [UInt8.or_comm]

theorem utf8_round_trip (chars : List Char) :
    ∃ outputs, chars.mapM (fun char => utf8EncodeQuiet char.val) = some outputs ∧
      utf8DecodeQuiet outputs.flatten = ⟨chars.map Char.val, true⟩ := by
  refine ⟨chars.map String.utf8EncodeChar, ?_, ?_⟩
  · rw [funext utf8EncodeQuiet_char]
    exact mapM_pure
  · rw [← flatMap_def]
    exact utf8DecodeQuiet_chars chars

/-! ### Cuts of UTF-8 -/

/-- The same place in the same sequence. The bits of a sequence that is over do not matter. -/
def Utf8State.Same (state other : Utf8State) : Prop :=
  state.tail = other.tail ∧ (0 < state.tail → state = other)

theorem Utf8State.Same.refl (state : Utf8State) : state.Same state := ⟨rfl, fun _ => rfl⟩

theorem agree_refl {State Item : Type} {related : State → State → Prop}
    (refl : ∀ state, related state state) (result : Result State Item) :
    Agree related result result := by
  obtain ⟨items, _ | last⟩ := result
  · exact ⟨rfl, .none⟩
  · exact ⟨rfl, .some (refl last)⟩

theorem agree_after {State Item : Type} {related : State → State → Prop} (items : List Item)
    {first second : Result State Item} (agree : Agree related first second) :
    Agree related (first.after items) (second.after items) :=
  ⟨congrArg (items ++ ·) agree.1, agree.2⟩

theorem run_same {state other : Utf8State} (same : state.Same other) (input : Bytes) :
    Agree Utf8State.Same (run utf8Step state input) (run utf8Step other input) := by
  induction input generalizing state other with
  | nil => exact ⟨rfl, .some same⟩
  | cons u rest ih =>
    obtain ⟨codepoint, tail⟩ := state
    obtain ⟨codepoint', tail'⟩ := other
    obtain ⟨tails, equal⟩ := same
    dsimp only at tails equal
    subst tails
    obtain _ | tail := tail
    · have step := utf8Step_lead codepoint u
      have step' := utf8Step_lead codepoint' u
      generalize lead u = leads at step step'
      obtain _ | ⟨_ | tail, bits⟩ := leads
      · rw [run_cons_none step, run_cons_none step']
        exact ⟨rfl, .none⟩
      · rw [run_cons_some step, run_cons_some step']
        exact agree_after _ (ih ⟨rfl, fun more => absurd more nofun⟩)
      · rw [run_cons_some step, run_cons_some step']
        exact agree_refl Utf8State.Same.refl _
    · rw [equal tail.succ_pos]
      exact agree_refl Utf8State.Same.refl _

theorem utf8DecodeStream_same {state other : Utf8State} (piece : Bytes) (same : state.Same other) :
    Agree Utf8State.Same (utf8DecodeStream state piece) (run utf8Step other piece) := by
  have agree := run_same same piece
  unfold utf8DecodeStream
  generalize run utf8Step state piece = ran at agree
  generalize run utf8Step other piece = ran' at agree
  obtain ⟨items, last⟩ := ran
  obtain ⟨items', last'⟩ := ran'
  obtain ⟨out, agree⟩ := agree
  refine ⟨out, ?_⟩
  cases agree with
  | none => exact .none
  | @some last last' same =>
    refine .some ?_
    dsimp only
    by_cases inside : 0 < last.tail
    · rw [if_pos inside]
      exact same
    · rw [if_neg inside]
      exact ⟨(Nat.eq_zero_of_not_pos inside).symm.trans same.1, fun more => absurd more nofun⟩

/-- Results that agree mean the same when the input is over. -/
theorem ofStream_agree {State : Type} {related : State → State → Prop} {complete : State → Bool}
    (tells : ∀ state other, related state other → complete state = complete other)
    {first second : Result State UInt32} (agree : Agree related first second) :
    ofStream complete first = ofStream complete second := by
  obtain ⟨items, last⟩ := first
  obtain ⟨items', last'⟩ := second
  obtain ⟨rfl, agree⟩ := agree
  cases agree with
  | none => rfl
  | some same => exact congrArg (mk items) (tells _ _ same)

/-- The verdict does not depend on how the input is cut. -/
theorem utf8DecodePieces_eq (pieces : List Bytes) :
    utf8DecodePieces pieces = utf8DecodeQuiet pieces.flatten := by
  have tells : ∀ state other : Utf8State, state.Same other → state.complete = other.complete :=
    fun state other same => congrArg (fun tail : Nat => decide (tail = 0)) same.1
  have start := Utf8State.Same.refl {}
  unfold utf8DecodePieces utf8DecodeQuiet
  rw [ofStream_agree tells (pieces_agree utf8DecodeStream_same start pieces),
    ofStream_agree tells (utf8DecodeStream_same pieces.flatten start)]

end Splintermail
