/-
This file is the theory of numbers in network byte order.

A number of a given width is written from its highest byte on, and is read by shifting in
one byte after another. The two are inverse to each other on numbers that fit the width,
and on byte strings of that width.
-/

import Mathlib.Data.List.Basic
import Mathlib.Tactic.Ring

namespace Splintermail

/-- The number that is read by shifting in bytes from a start on. -/
def shiftIn (start : Nat) (bytes : List UInt8) : Nat :=
  bytes.foldl (fun u byte => u <<< 8 ||| byte.toNat) start

/-- The number in bytes, the highest one first. -/
def beNat (bytes : List UInt8) : Nat := shiftIn 0 bytes

/-- The lowest bytes of a number, the highest one first. -/
def beBytes : Nat → Nat → List UInt8
  | 0, _ => []
  | width + 1, u => UInt8.ofNat (u >>> (8 * width)) :: beBytes width u

@[simp] theorem length_beBytes (width u : Nat) : (beBytes width u).length = width := by
  induction width with
  | zero => rfl
  | succ width ih => simp [beBytes, ih]

theorem shiftIn_byte (start : Nat) (byte : UInt8) :
    start <<< 8 ||| byte.toNat = start * 2 ^ 8 + byte.toNat := by
  rw [← Nat.shiftLeft_add_eq_or_of_lt byte.toNat_lt, Nat.shiftLeft_eq]

theorem shiftIn_eq (start : Nat) (bytes : List UInt8) :
    shiftIn start bytes = start * 2 ^ (8 * bytes.length) + beNat bytes := by
  induction bytes generalizing start with
  | nil => simp [shiftIn, beNat]
  | cons byte rest ih =>
    have first : shiftIn start (byte :: rest) = shiftIn (start <<< 8 ||| byte.toNat) rest := rfl
    have alone : beNat (byte :: rest) = shiftIn (0 <<< 8 ||| byte.toNat) rest := rfl
    rw [first, alone, ih, ih (0 <<< 8 ||| byte.toNat),
      shiftIn_byte, shiftIn_byte, List.length_cons, Nat.mul_add, Nat.pow_add]
    ring

theorem beNat_cons (byte : UInt8) (rest : List UInt8) :
    beNat (byte :: rest) = byte.toNat * 2 ^ (8 * rest.length) + beNat rest := by
  have first : beNat (byte :: rest) = shiftIn (0 <<< 8 ||| byte.toNat) rest := rfl
  rw [first, shiftIn_eq, shiftIn_byte, Nat.zero_mul, Nat.zero_add]

theorem beNat_lt (bytes : List UInt8) : beNat bytes < 2 ^ (8 * bytes.length) := by
  induction bytes with
  | nil => exact Nat.one_pos
  | cons byte rest ih =>
    rw [beNat_cons, List.length_cons, Nat.mul_add, Nat.pow_add]
    calc byte.toNat * 2 ^ (8 * rest.length) + beNat rest
        < byte.toNat * 2 ^ (8 * rest.length) + 2 ^ (8 * rest.length) :=
          Nat.add_lt_add_left ih _
      _ = (byte.toNat + 1) * 2 ^ (8 * rest.length) := by ring
      _ ≤ 2 ^ 8 * 2 ^ (8 * rest.length) := Nat.mul_le_mul_right _ byte.toNat_lt
      _ = 2 ^ (8 * rest.length) * 2 ^ (8 * 1) := Nat.mul_comm _ _

theorem beBytes_add_mul (width u high : Nat) :
    beBytes width (high * 2 ^ (8 * width) + u) = beBytes width u := by
  induction width generalizing high with
  | zero => rfl
  | succ width ih =>
    have scale : high * 2 ^ (8 * (width + 1)) + u = (high * 2 ^ 8) * 2 ^ (8 * width) + u := by
      rw [Nat.mul_add, Nat.pow_add]; ring
    rw [beBytes, beBytes, scale, ih, List.cons.injEq]
    refine ⟨UInt8.toNat_inj.mp ?_, rfl⟩
    rw [UInt8.toNat_ofNat', UInt8.toNat_ofNat', Nat.shiftRight_eq_div_pow,
      Nat.shiftRight_eq_div_pow, Nat.mul_comm, Nat.mul_add_div (Nat.two_pow_pos _), Nat.mul_comm,
      Nat.mul_add_mod]

theorem beBytes_beNat (bytes : List UInt8) : beBytes bytes.length (beNat bytes) = bytes := by
  induction bytes with
  | nil => rfl
  | cons byte rest ih =>
    rw [List.length_cons, beBytes, beNat_cons, beBytes_add_mul, ih,
      Nat.shiftRight_eq_div_pow, Nat.mul_comm, Nat.mul_add_div (Nat.two_pow_pos _),
      Nat.div_eq_of_lt (beNat_lt rest), Nat.add_zero, UInt8.ofNat_toNat]

theorem beNat_beBytes {width u : Nat} (fits : u < 2 ^ (8 * width)) :
    beNat (beBytes width u) = u := by
  induction width generalizing u with
  | zero => exact (Nat.lt_one_iff.mp fits).symm
  | succ width ih =>
    have high : u >>> (8 * width) < 2 ^ 8 := by
      rw [Nat.shiftRight_eq_div_pow, Nat.div_lt_iff_lt_mul (Nat.two_pow_pos _), ← Nat.pow_add,
        Nat.add_comm]
      exact fits
    have low : beBytes width u = beBytes width (u % 2 ^ (8 * width)) := by
      conv_lhs => rw [← Nat.div_add_mod' u (2 ^ (8 * width))]
      exact beBytes_add_mul ..
    rw [beBytes, beNat_cons, length_beBytes, UInt8.toNat_ofNat', Nat.mod_eq_of_lt high, low,
      ih (Nat.mod_lt _ (Nat.two_pow_pos _)), Nat.shiftRight_eq_div_pow]
    exact Nat.div_add_mod' u _

end Splintermail
