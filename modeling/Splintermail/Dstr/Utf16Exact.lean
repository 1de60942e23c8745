/-
This file proves that the UTF-16 coders of `unicode.c` undo each other, and that it does not
matter how the stream's input is cut.

The stream handles the byte order mark before its loop, and the loop keeps the unit of the
first two bytes in a variable. Both come to the same as taking one byte at a time, with
the unit made of the bytes when it is needed: so a stream that is given pieces does what it
does with all of them at once.
-/

import Splintermail.Dstr.Utf8Exact

namespace Splintermail

open Transducer Utf16State List

/-! ### The loop and its steps -/

/-- One byte of UTF-16, with or without a byte order mark. -/
def utf16Step (state : Utf16State) (u : UInt8) : Option (Utf16State × List UInt32) :=
  if state.haveBom then
    match state.state with
    | 0 => some ({ state with u1 := u, state := 1 }, [])
    | 1 =>
      let u12 := mku16 state.bigendian state.u1 u
      if u12 < 0xD800 ∨ u12 > 0xDFFF then
        some ({ state with u2 := u, state := 0 }, [u12.toUInt32])
      else if u12 < 0xDC00 then some ({ state with u2 := u, state := 2 }, [])
      else none
    | 2 => some ({ state with u3 := u, state := 3 }, [])
    | _ =>
      let u34 := mku16 state.bigendian state.u3 u
      if u34 < 0xDC00 ∨ u34 > 0xDFFF then none
      else some ({ state with state := 0 }, [mku32 (mku16 state.bigendian state.u1 state.u2) u34])
  else if state.state = 0 then some ({ state with u1 := u, state := 1 }, [])
  else (utf16BomSecond state [u]).map fun read => (read.1, [])

/-- The states that the stream leaves. -/
def Utf16State.Good (state : Utf16State) : Prop :=
  state.state < 4 ∧ (state.haveBom = false → state.state < 2)

section
variable (bigendian : Bool) (u1 u2 u3 u : UInt8) (u12 : UInt16) (rest : Bytes)

theorem utf16Step_bom :
    utf16Step ⟨false, bigendian, 1, u1, u2, u3⟩ u =
      (if u1 = 0xFE ∧ u = 0xFF then some (⟨true, true, 0, u1, u, u3⟩, [])
        else if u1 = 0xFF ∧ u = 0xFE then some (⟨true, false, 0, u1, u, u3⟩, [])
        else none : Option (Utf16State × Bytes)).map fun read => (read.1, []) := rfl

theorem utf16Step_second :
    utf16Step ⟨true, bigendian, 1, u1, u2, u3⟩ u = let unit := mku16 bigendian u1 u
      if unit < 0xD800 ∨ unit > 0xDFFF then
        some (⟨true, bigendian, 0, u1, u, u3⟩, [unit.toUInt32])
      else if unit < 0xDC00 then some (⟨true, bigendian, 2, u1, u, u3⟩, []) else none := rfl

theorem utf16Step_fourth :
    utf16Step ⟨true, bigendian, 3, u1, u2, u3⟩ u = let unit := mku16 bigendian u3 u
      if unit < 0xDC00 ∨ unit > 0xDFFF then none
      else some (⟨true, bigendian, 0, u1, u2, u3⟩, [mku32 (mku16 bigendian u1 u2) unit]) := rfl

theorem utf16Loop_second :
    utf16Loop ⟨true, bigendian, 1, u1, u2, u3⟩ u12 (u :: rest) = let unit := mku16 bigendian u1 u
      if unit < 0xD800 ∨ unit > 0xDFFF then
        (utf16Loop ⟨true, bigendian, 0, u1, u, u3⟩ unit rest).after [unit.toUInt32]
      else if unit < 0xDC00 then utf16Loop ⟨true, bigendian, 2, u1, u, u3⟩ unit rest
      else ([], none) := rfl

theorem utf16Loop_fourth :
    utf16Loop ⟨true, bigendian, 3, u1, u2, u3⟩ u12 (u :: rest) = let unit := mku16 bigendian u3 u
      if unit < 0xDC00 ∨ unit > 0xDFFF then ([], none)
      else (utf16Loop ⟨true, bigendian, 0, u1, u2, u3⟩ u12 rest).after [mku32 u12 unit] := rfl

end

theorem utf16Loop_nil (state : Utf16State) (u12 : UInt16) (bounded : state.state < 4) :
    utf16Loop state u12 [] = ([], some state) := by
  have masked : state.state &&& 3 = state.state :=
    (Nat.and_two_pow_sub_one_eq_mod state.state 2).trans (Nat.mod_eq_of_lt bounded)
  rw [utf16Loop, masked]

/-- The loop takes the steps, as long as it has the unit that the first two bytes make. -/
theorem utf16Loop_run {bigendian : Bool} {place : Nat} {u1 u2 u3 : UInt8} {u12 : UInt16}
    (bounded : place < 4) (unit : 2 ≤ place → u12 = mku16 bigendian u1 u2) (input : Bytes) :
    utf16Loop ⟨true, bigendian, place, u1, u2, u3⟩ u12 input =
      run utf16Step ⟨true, bigendian, place, u1, u2, u3⟩ input := by
  induction input generalizing place u1 u2 u3 u12 with
  | nil => exact utf16Loop_nil _ u12 bounded
  | cons u rest ih =>
    -- between two units nothing is known of the unit that the loop keeps
    have fresh : ∀ (u1 u2 u3 : UInt8) (u12 : UInt16),
        utf16Loop ⟨true, bigendian, 0, u1, u2, u3⟩ u12 rest =
          run utf16Step ⟨true, bigendian, 0, u1, u2, u3⟩ rest := fun _ _ _ _ =>
      ih (by decide) fun more => absurd more (by decide)
    obtain rfl | rfl | rfl | rfl : place = 0 ∨ place = 1 ∨ place = 2 ∨ place = 3 := by omega
    · exact ih (by decide) fun more => absurd more (by decide)
    · rw [utf16Loop_second, run, utf16Step_second]
      dsimp only
      split_ifs
      · exact congrArg (Result.after _) (fresh u1 u u3 _)
      · exact ih (by decide) fun _ => rfl
      · rfl
    · exact ih (by decide) fun _ => unit le_rfl
    · rw [utf16Loop_fourth, run, utf16Step_fourth, ← unit (by decide)]
      dsimp only
      split_ifs
      · rfl
      · exact congrArg (Result.after _) (fresh u1 u2 u3 _)

theorem utf16ReadBom_second (bigendian : Bool) (u1 u2 u3 u : UInt8) (rest : Bytes) :
    utf16DecodeStream ⟨false, bigendian, 1, u1, u2, u3⟩ (u :: rest) =
      run utf16Step ⟨false, bigendian, 1, u1, u2, u3⟩ (u :: rest) := by
  have bom : utf16ReadBom ⟨false, bigendian, 1, u1, u2, u3⟩ (u :: rest) =
      if u1 = 0xFE ∧ u = 0xFF then some (⟨true, true, 0, u1, u, u3⟩, rest)
      else if u1 = 0xFF ∧ u = 0xFE then some (⟨true, false, 0, u1, u, u3⟩, rest) else none := rfl
  rw [utf16DecodeStream, bom, run, utf16Step_bom]
  split_ifs
  · exact utf16Loop_run (show 0 < 4 by decide) (fun more => absurd more (by decide)) rest
  · exact utf16Loop_run (show 0 < 4 by decide) (fun more => absurd more (by decide)) rest
  · rfl

variable {state : Utf16State}

theorem utf16DecodeStream_run (good : state.Good) (input : Bytes) :
    utf16DecodeStream state input = run utf16Step state input := by
  obtain ⟨haveBom, bigendian, place, u1, u2, u3⟩ := state
  obtain ⟨bounded, waiting⟩ := good
  dsimp only at bounded waiting
  obtain _ | _ := haveBom
  · have waits := waiting rfl
    obtain rfl | rfl : place = 0 ∨ place = 1 := by omega
    · obtain _ | ⟨first, _ | ⟨second, rest⟩⟩ := input
      · exact utf16Loop_nil _ (mku16 bigendian u1 u2) bounded
      · exact utf16Loop_nil _ (mku16 bigendian first u2) (show 1 < 4 by decide)
      · exact utf16ReadBom_second bigendian first u2 u3 second rest
    · obtain _ | ⟨second, rest⟩ := input
      · exact utf16Loop_nil _ (mku16 bigendian u1 u2) bounded
      · exact utf16ReadBom_second bigendian u1 u2 u3 second rest
  · exact utf16Loop_run bounded (fun _ => rfl) input

theorem utf16Step_good {next : Utf16State} {u : UInt8} {items : List UInt32} (good : state.Good)
    (stepped : utf16Step state u = some (next, items)) : next.Good := by
  obtain ⟨haveBom, bigendian, place, u1, u2, u3⟩ := state
  obtain ⟨bounded, waiting⟩ := good
  dsimp only at bounded waiting
  -- the next state stands for itself once the branch is known
  have marked : ∀ {bigendian : Bool} {place : Nat} {u1 u2 u3 : UInt8}, place < 4 →
      Good ⟨true, bigendian, place, u1, u2, u3⟩ := fun bounded => ⟨bounded, nofun⟩
  obtain _ | _ := haveBom
  · have waits := waiting rfl
    obtain rfl | rfl : place = 0 ∨ place = 1 := by omega
    · obtain rfl := congrArg Prod.fst (Option.some.inj stepped)
      exact ⟨show 1 < 4 by decide, fun _ => show 1 < 2 by decide⟩
    · rw [utf16Step_bom] at stepped
      split_ifs at stepped
      · obtain rfl := congrArg Prod.fst (Option.some.inj stepped)
        exact marked (show 0 < 4 by decide)
      · obtain rfl := congrArg Prod.fst (Option.some.inj stepped)
        exact marked (show 0 < 4 by decide)
      · exact absurd stepped nofun
  · obtain rfl | rfl | rfl | rfl : place = 0 ∨ place = 1 ∨ place = 2 ∨ place = 3 := by omega
    · obtain rfl := congrArg Prod.fst (Option.some.inj stepped)
      exact marked (show 1 < 4 by decide)
    · rw [utf16Step_second] at stepped
      dsimp only at stepped
      split_ifs at stepped <;> obtain rfl := congrArg Prod.fst (Option.some.inj stepped)
      · exact marked (show 0 < 4 by decide)
      · exact marked (show 2 < 4 by decide)
    · obtain rfl := congrArg Prod.fst (Option.some.inj stepped)
      exact marked (show 3 < 4 by decide)
    · rw [utf16Step_fourth] at stepped
      dsimp only at stepped
      split_ifs at stepped
      obtain rfl := congrArg Prod.fst (Option.some.inj stepped)
      exact marked (show 0 < 4 by decide)

/-- A run stays within the states that the stream leaves. -/
theorem run_good {last : Utf16State} {input : Bytes} {items : List UInt32} (good : state.Good)
    (ran : run utf16Step state input = (items, some last)) : last.Good := by
  induction input generalizing state items with
  | nil =>
    cases congrArg Prod.snd ran
    exact good
  | cons u rest ih =>
    obtain ⟨next, out, more, stepped, -, goesOn⟩ := run_cons_last ran
    exact ih (utf16Step_good good stepped) goesOn

/-- The verdict does not depend on how the input is cut, whether the stream waits for a byte order
mark or was started with one. -/
theorem utf16DecodePieces_eq (good : state.Good) (pieces : List Bytes) :
    utf16DecodePieces state pieces = utf16DecodeFrom state pieces.flatten := by
  have follows : ∀ {state other : Utf16State} (piece : Bytes), state = other ∧ state.Good →
      Agree (fun state other => state = other ∧ state.Good) (utf16DecodeStream state piece)
        (run utf16Step other piece) := by
    rintro state _ piece ⟨rfl, good⟩
    rw [utf16DecodeStream_run good]
    cases ran : run utf16Step state piece with
    | mk items last =>
      cases last with
      | none => exact ⟨rfl, .none⟩
      | some last => exact ⟨rfl, .some ⟨rfl, run_good good ran⟩⟩
  have tells : ∀ state other : Utf16State, state = other ∧ state.Good →
      state.complete = other.complete := fun _ _ same => congrArg complete same.1
  unfold utf16DecodePieces utf16DecodeFrom
  rw [utf16DecodeStream_run good, ofStream_agree tells (pieces_agree follows ⟨rfl, good⟩ pieces)]

/-! ### There and back -/

/-- The two bytes of a unit in a byte order. -/
def utf16UnitBytes (bigendian : Bool) (unit : UInt16) : Bytes :=
  let high := UInt8.ofNat (unit.toNat / 256)
  let low := UInt8.ofNat (unit.toNat % 256)
  if bigendian then [high, low] else [low, high]

/-- A text of units in a byte order, after the byte order mark. -/
def utf16Text (bigendian : Bool) (units : List UInt16) : Bytes :=
  utf16UnitBytes bigendian 0xFEFF ++ units.flatMap (utf16UnitBytes bigendian)

theorem mku16_bytes (bigendian : Bool) (unit : UInt16) :
    ∃ first second, utf16UnitBytes bigendian unit = [first, second] ∧
      mku16 bigendian first second = unit := by
  have bound := unit.toNat_lt
  have together : ∀ high low : UInt8, high.toNat = unit.toNat / 256 → low.toNat = unit.toNat % 256 →
      (high.toUInt16 <<< 8) ||| low.toUInt16 = unit := by
    intro high low upper lower
    refine UInt16.toNat_inj.mp ?_
    rw [UInt16.toNat_or, UInt16.toNat_shiftLeft, UInt8.toNat_toUInt16, UInt8.toNat_toUInt16,
      upper, lower]
    show (unit.toNat / 256) <<< 8 % 2 ^ 16 ||| unit.toNat % 256 = unit.toNat
    rw [Nat.shiftLeft_eq, Nat.mod_eq_of_lt (by omega), Nat.mul_comm,
      ← Nat.two_pow_add_eq_or_of_lt (by omega)]
    omega
  have upper : (UInt8.ofNat (unit.toNat / 256)).toNat = unit.toNat / 256 :=
    Utf8.toNat_ofNat_of_lt (by omega)
  have lower : (UInt8.ofNat (unit.toNat % 256)).toNat = unit.toNat % 256 :=
    Utf8.toNat_ofNat_of_lt (by omega)
  have zero : ∀ byte : UInt8, byte.toUInt16 <<< 0 = byte.toUInt16 := fun byte => by simp
  obtain _ | _ := bigendian
  · refine ⟨_, _, rfl, ?_⟩
    show (_ <<< (0 : UInt16)) ||| (_ <<< (8 : UInt16)) = unit
    rw [zero, UInt16.or_comm]
    exact together _ _ upper lower
  · refine ⟨_, _, rfl, ?_⟩
    show (_ <<< (8 : UInt16)) ||| (_ <<< (0 : UInt16)) = unit
    rw [zero]
    exact together _ _ upper lower

/-- The numbers of a surrogate pair. -/
theorem surrogates_toNat (value : UInt32) (small : value.toNat < 0x100000) :
    (UInt32.toUInt16 ((0xD800 : UInt32) ||| ((value >>> 10) &&& 0x3FF))).toNat =
        0xD800 + value.toNat / 1024 ∧
      (UInt32.toUInt16 ((0xDC00 : UInt32) ||| (value &&& 0x3FF))).toNat =
        0xDC00 + value.toNat % 1024 := by
  have low : (value &&& 0x3FF).toNat = value.toNat % 1024 :=
    (UInt32.toNat_and value 0x3FF).trans (Nat.and_two_pow_sub_one_eq_mod value.toNat 10)
  have high : ((value >>> 10) &&& 0x3FF).toNat = value.toNat / 1024 := by
    rw [UInt32.toNat_and, UInt32.toNat_shiftRight]
    refine (Nat.and_two_pow_sub_one_eq_mod _ 10).trans ?_
    show value.toNat >>> 10 % 1024 = value.toNat / 1024
    rw [Nat.shiftRight_eq_div_pow]
    exact Nat.mod_eq_of_lt (by omega)
  rw [UInt32.toNat_toUInt16, UInt32.toNat_toUInt16, UInt32.toNat_or, UInt32.toNat_or, low, high]
  constructor
  · show (2 ^ 10 * 54 ||| value.toNat / 1024) % 2 ^ 16 = _
    rw [← Nat.two_pow_add_eq_or_of_lt (by omega)]
    omega
  · show (2 ^ 10 * 55 ||| value.toNat % 1024) % 2 ^ 16 = _
    rw [← Nat.two_pow_add_eq_or_of_lt (by omega)]
    omega

theorem mku32_toNat (first second : UInt16) :
    (mku32 first second).toNat = first.toNat % 1024 * 1024 + second.toNat % 1024 + 0x10000 := by
  have low : ∀ unit : UInt16, (unit &&& 0x3FF).toUInt32.toNat = unit.toNat % 1024 := by
    intro unit
    rw [UInt16.toNat_toUInt32, UInt16.toNat_and]
    exact Nat.and_two_pow_sub_one_eq_mod unit.toNat 10
  unfold mku32
  rw [UInt32.toNat_add, UInt32.toNat_or, UInt32.toNat_shiftLeft, low, low]
  show (((first.toNat % 1024) <<< 10 % 2 ^ 32 ||| second.toNat % 1024) + 0x10000) % 2 ^ 32 = _
  have product : first.toNat % 1024 * 2 ^ 10 < 2 ^ 32 := by omega
  rw [Nat.shiftLeft_eq, Nat.mod_eq_of_lt product, Nat.mul_comm,
    ← Nat.two_pow_add_eq_or_of_lt (by omega)]
  omega

/-- The encoder refuses the surrogates and nothing else. -/
theorem utf16EncodeQuiet_none (codepoint : UInt32) :
    utf16EncodeQuiet codepoint = none ↔ Utf8.IsSurrogate codepoint.toNat := by
  unfold utf16EncodeQuiet Utf8.IsSurrogate
  simp only [UInt32.lt_iff_toNat_lt, UInt32.le_iff_toNat_le, UInt32.reduceToNat]
  split_ifs with small surrogate
  · exact ⟨fun _ => surrogate, fun _ => rfl⟩
  · exact ⟨fun none => absurd none nofun, fun between => absurd between surrogate⟩
  · exact ⟨fun none => absurd none nofun, fun between => absurd (between.2.trans_lt (by decide)) small⟩

/-- Between two codepoints. -/
def Utf16State.Rests (bigendian : Bool) (state : Utf16State) : Prop :=
  state.haveBom = true ∧ state.bigendian = bigendian ∧ state.state = 0

section

variable (bigendian : Bool)

/-- A unit that is read between two codepoints. -/
theorem run_first_unit (unit : UInt16) (u1 u2 u3 : UInt8) :
    ∃ first second, mku16 bigendian first second = unit ∧
      run utf16Step ⟨true, bigendian, 0, u1, u2, u3⟩ (utf16UnitBytes bigendian unit) =
        if unit < 0xD800 ∨ unit > 0xDFFF then
          ([unit.toUInt32], some ⟨true, bigendian, 0, first, second, u3⟩)
        else if unit < 0xDC00 then ([], some ⟨true, bigendian, 2, first, second, u3⟩)
        else ([], none) := by
  obtain ⟨first, second, bytes, same⟩ := mku16_bytes bigendian unit
  refine ⟨first, second, same, ?_⟩
  have step : run utf16Step ⟨true, bigendian, 0, u1, u2, u3⟩ [first, second] =
      run utf16Step ⟨true, bigendian, 1, first, u2, u3⟩ [second] := rfl
  rw [bytes, step, run, utf16Step_second, same]
  dsimp only
  split_ifs <;> rfl

/-- A unit that is read in the middle of a pair. -/
theorem run_second_unit (unit : UInt16) (u1 u2 u3 : UInt8) :
    ∃ third, run utf16Step ⟨true, bigendian, 2, u1, u2, u3⟩ (utf16UnitBytes bigendian unit) =
      if unit < 0xDC00 ∨ unit > 0xDFFF then ([], none)
      else ([mku32 (mku16 bigendian u1 u2) unit], some ⟨true, bigendian, 0, u1, u2, third⟩) := by
  obtain ⟨third, fourth, bytes, same⟩ := mku16_bytes bigendian unit
  refine ⟨third, ?_⟩
  have step : run utf16Step ⟨true, bigendian, 2, u1, u2, u3⟩ [third, fourth] =
      run utf16Step ⟨true, bigendian, 3, u1, u2, third⟩ [fourth] := rfl
  rw [bytes, step, run, utf16Step_fourth, same]
  dsimp only
  split_ifs <;> rfl

/-- What the encoder gives for a character is read back as that character. -/
theorem run_char (char : Char) {units : List UInt16}
    (encoded : utf16EncodeQuiet char.val = some units) (rests : state.Rests bigendian) :
    ∃ next : Utf16State, next.Rests bigendian ∧
      run utf16Step state (units.flatMap (utf16UnitBytes bigendian)) = ([char.val], some next) := by
  obtain ⟨haveBom, order, place, u1, u2, u3⟩ := state
  obtain ⟨rfl, rfl, rfl⟩ : haveBom = true ∧ order = bigendian ∧ place = 0 := rests
  have real := not_surrogate char
  have valid := Utf8.valid_lt char
  unfold Utf8.IsSurrogate at real
  unfold utf16EncodeQuiet at encoded
  split_ifs at encoded with small surrogate
  · cases encoded
    obtain ⟨first, second, -, ran⟩ := run_first_unit order char.val.toUInt16 u1 u2 u3
    simp only [UInt32.lt_iff_toNat_lt, UInt32.reduceToNat] at small
    have value : char.val.toUInt16.toNat = char.val.toNat :=
      (UInt32.toNat_toUInt16 char.val).trans (Nat.mod_eq_of_lt small)
    have plain : char.val.toUInt16 < 0xD800 ∨ char.val.toUInt16 > 0xDFFF := by
      simp only [gt_iff_lt, UInt16.lt_iff_toNat_lt, value, UInt16.reduceToNat]
      omega
    have same : char.val.toUInt16.toUInt32 = char.val :=
      UInt32.toNat_inj.mp ((UInt16.toNat_toUInt32 _).trans value)
    rw [if_pos plain, same] at ran
    rw [flatMap_singleton]
    exact ⟨_, ⟨rfl, rfl, rfl⟩, ran⟩
  · cases encoded
    simp only [UInt32.lt_iff_toNat_lt, UInt32.reduceToNat, Nat.not_lt] at small
    have rest : (char.val - 0x10000).toNat = char.val.toNat - 0x10000 :=
      UInt32.toNat_sub_of_le _ _ (UInt32.le_iff_toNat_le.mpr small)
    obtain ⟨high, low⟩ := surrogates_toNat (char.val - 0x10000) (by omega)
    generalize UInt32.toUInt16 (_ ||| (((char.val - 0x10000) >>> 10) &&& _)) = w1 at high ⊢
    generalize UInt32.toUInt16 (_ ||| ((char.val - 0x10000) &&& _)) = w2 at low ⊢
    obtain ⟨first, second, unit, ran⟩ := run_first_unit order w1 u1 u2 u3
    obtain ⟨third, ran'⟩ := run_second_unit order w2 first second u3
    have whole : mku32 w1 w2 = char.val := by
      refine UInt32.toNat_inj.mp ((mku32_toNat w1 w2).trans ?_)
      omega
    have leads : ¬ (w1 < 0xD800 ∨ w1 > 0xDFFF) ∧ w1 < 0xDC00 := by
      simp only [gt_iff_lt, UInt16.lt_iff_toNat_lt, UInt16.reduceToNat]
      omega
    have follows : ¬ (w2 < 0xDC00 ∨ w2 > 0xDFFF) := by
      simp only [gt_iff_lt, UInt16.lt_iff_toNat_lt, UInt16.reduceToNat]
      omega
    rw [if_neg leads.1, if_pos leads.2] at ran
    rw [if_neg follows, unit, whole] at ran'
    refine ⟨⟨true, order, 0, first, second, third⟩, ⟨rfl, rfl, rfl⟩, ?_⟩
    rw [flatMap_cons, flatMap_singleton, run_append, ran, andThen_some, ran']
    rfl

/-- After the byte order mark the stream is between codepoints, in that byte order. -/
theorem run_bom :
    ∃ next : Utf16State, next.Rests bigendian ∧
      run utf16Step {} (utf16UnitBytes bigendian 0xFEFF) = ([], some next) := by
  obtain _ | _ := bigendian
  · exact ⟨⟨true, false, 0, 0xFF, 0xFE, 0⟩, ⟨rfl, rfl, rfl⟩, by decide +kernel⟩
  · exact ⟨⟨true, true, 0, 0xFE, 0xFF, 0⟩, ⟨rfl, rfl, rfl⟩, by decide +kernel⟩

theorem utf16_round_trip (chars : List Char) :
    ∃ outputs, chars.mapM (fun char => utf16EncodeQuiet char.val) = some outputs ∧
      utf16DecodeQuiet (utf16Text bigendian outputs.flatten) = ⟨chars.map Char.val, true⟩ := by
  have encodes : ∀ char : Char, ∃ units, utf16EncodeQuiet char.val = some units := by
    intro char
    refine Option.ne_none_iff_exists'.mp fun none => ?_
    exact not_surrogate char ((utf16EncodeQuiet_none char.val).mp none)
  choose units encoded using encodes
  refine ⟨chars.map units, ?_, ?_⟩
  · rw [funext encoded]
    exact mapM_pure
  · have good : Good {} := ⟨by decide, fun _ => by decide⟩
    obtain ⟨begun, resting, mark⟩ := run_bom bigendian
    obtain ⟨last, ended, ran⟩ := run_flatMap chars
      (fun char _ state rests => run_char bigendian char (encoded char) rests) resting
    unfold utf16DecodeQuiet utf16DecodeFrom utf16Text
    rw [utf16DecodeStream_run good, run_append, mark, andThen_some, after_nil, ← flatMap_def,
      flatMap_assoc, ran]
    exact congrArg (Transcoded.mk _) (decide_eq_true ended.2.2)

end

/-! ### The codecs -/

/-- The UTF-16 encoder refuses what is no character, as long as it is asked for codepoints: it
wraps the numbers above them around. -/
theorem utf16EncodeQuiet_exact (codepoint : UInt32) :
    (utf16EncodeQuiet codepoint = none ↔ ¬ codepoint.isValidChar) ↔ codepoint < 0x110000 := by
  rw [utf16EncodeQuiet_none]
  unfold Utf8.IsSurrogate UInt32.isValidChar Nat.isValidChar
  simp only [UInt32.lt_iff_toNat_lt, UInt32.reduceToNat]
  omega

/-- The codecs are exact on inputs without lenient forms and on codepoints that exist: the UTF-8
decoder accepts the texts of characters and nothing else if and only if the input is not one that
is cut into forms with one that is too long or too high, and the UTF-16 encoder refuses what is no
character if and only if it is not above the last codepoint. Encoding is undone by decoding, and no
decoder depends on how its input is cut. -/
theorem codecs_exact (input : Bytes) (codepoint : UInt32) :
    (Utf8Exact input ↔ ¬ Utf8Lenient input) ∧
    (∀ chars : List Char, ∃ outputs,
      chars.mapM (fun char => utf8EncodeQuiet char.val) = some outputs ∧
        utf8DecodeQuiet outputs.flatten = ⟨chars.map Char.val, true⟩) ∧
    ((utf16EncodeQuiet codepoint = none ↔ ¬ codepoint.isValidChar) ↔ codepoint < 0x110000) ∧
    (∀ (bigendian : Bool) (chars : List Char), ∃ outputs,
      chars.mapM (fun char => utf16EncodeQuiet char.val) = some outputs ∧
        utf16DecodeQuiet (utf16Text bigendian outputs.flatten) = ⟨chars.map Char.val, true⟩) ∧
    (∀ pieces, utf8DecodePieces pieces = utf8DecodeQuiet pieces.flatten) ∧
    (∀ pieces, utf16DecodePieces {} pieces = utf16DecodeQuiet pieces.flatten) ∧
    (∀ pieces, utf16DecodePieces utf16StartBe pieces = utf16BeDecodeQuiet pieces.flatten) ∧
    ∀ pieces, utf16DecodePieces utf16StartLe pieces = utf16LeDecodeQuiet pieces.flatten := by
  have fresh : Good {} := ⟨by decide, fun _ => by decide⟩
  have started : Good utf16StartBe ∧ Good utf16StartLe :=
    ⟨⟨by decide, nofun⟩, ⟨by decide, nofun⟩⟩
  exact ⟨utf8Exact_iff input, utf8_round_trip, utf16EncodeQuiet_exact codepoint, utf16_round_trip,
    utf8DecodePieces_eq, utf16DecodePieces_eq fresh, utf16DecodePieces_eq started.1,
    utf16DecodePieces_eq started.2⟩

/-- NUL in two bytes is read as NUL, and the first number after the codepoints is written as the
pair of the first codepoint that needs one. -/
theorem codecs_lenient :
    (utf8DecodeQuiet [0xC0, 0x80] = ⟨[0], true⟩ ∧ ¬ Utf8Exact [0xC0, 0x80]) ∧
      utf16EncodeQuiet 0x110000 = some [0xD800, 0xDC00] ∧
      ¬ (utf16EncodeQuiet 0x110000 = none ↔ ¬ UInt32.isValidChar 0x110000) := by
  refine ⟨⟨by decide +kernel, ?_⟩, by decide +kernel, by decide +kernel⟩
  rw [utf8Exact_iff, not_not]
  have leads : Utf8.lead 0xC0 = some ([(0x80 : UInt8)].length, 0) := by decide
  have follows : Utf8.IsTail 0x80 := ⟨by decide, by decide⟩
  have form : Utf8.Form [0xC0, 0x80] 0 := .intro leads (forall_mem_singleton.mpr follows)
  refine ⟨[([0xC0, 0x80], 0)], rfl, forall_mem_singleton.mpr ⟨form, by decide⟩,
    ([0xC0, 0x80], 0), mem_singleton_self _, ?_⟩
  exact fun proper => absurd proper.2 (by decide)

end Splintermail
