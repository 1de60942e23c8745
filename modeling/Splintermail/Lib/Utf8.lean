/-
This file is the theory of UTF-8 as a table of bit patterns.

A number is spread over a first byte, which tells how many bytes follow, and following
bytes of six bits each. This alone says how a text is cut into forms and which number
each of them holds, in one way only. A form is an encoding of a character if its number is
one and if it has the number of bytes that the table gives to that number: then it is the
only form of that length, and the one that Lean's own encoder writes.
-/

import Mathlib.Data.List.Basic
import Mathlib.Tactic.NormNum

namespace Splintermail

open List

namespace Utf8

/-- How many bytes follow a first byte, and the bits of the number in it. -/
def lead (byte : UInt8) : Option (Nat × Nat) :=
  if byte.toNat < 0x80 then some (0, byte.toNat)
  else if byte.toNat < 0xC0 then none
  else if byte.toNat < 0xE0 then some (1, byte.toNat - 0xC0)
  else if byte.toNat < 0xF0 then some (2, byte.toNat - 0xE0)
  else if byte.toNat < 0xF8 then some (3, byte.toNat - 0xF0)
  else none

/-- A byte that follows. -/
def IsTail (byte : UInt8) : Prop := 0x80 ≤ byte.toNat ∧ byte.toNat < 0xC0

/-- The number that the bits so far and the last six bits of the following bytes make. -/
def extend (bits : Nat) : List UInt8 → Nat
  | [] => bits
  | byte :: rest => extend (bits * 64 + byte.toNat % 64) rest

/-- A first byte and as many following bytes as it asks for, with their number. -/
inductive Form : List UInt8 → Nat → Prop where
  | intro {first : UInt8} {tails : List UInt8} {bits : Nat} :
    lead first = some (tails.length, bits) → (∀ byte ∈ tails, IsTail byte) →
    Form (first :: tails) (extend bits tails)

/-- How many bytes the table gives to a number. -/
def size (number : Nat) : Nat :=
  if number < 0x80 then 1 else if number < 0x800 then 2 else if number < 0x10000 then 3 else 4

/-- The numbers that are no characters because UTF-16 uses them for its pairs. -/
def IsSurrogate (number : Nat) : Prop := 0xD800 ≤ number ∧ number ≤ 0xDFFF

instance : DecidablePred IsSurrogate := fun _ => inferInstanceAs (Decidable (_ ∧ _))

/-- The form of a character: its number is one, in as many bytes as the table gives it. -/
def Proper (text : List UInt8) (number : Nat) : Prop :=
  number < 0x110000 ∧ text.length = size number

variable {text : List UInt8} {number : Nat}

theorem Form.ne_nil (form : Form text number) : text ≠ [] := by
  cases form
  exact cons_ne_nil _ _

/-! ### Numbers -/

theorem lead_injective {first other : UInt8} {result : Nat × Nat}
    (one : lead first = some result) (two : lead other = some result) : first = other := by
  refine UInt8.toNat_inj.mp ?_
  have bound := first.toNat_lt
  have bound' := other.toNat_lt
  unfold lead at one two
  grind

theorem lead_bound {first : UInt8} {count bits : Nat} (leads : lead first = some (count, bits)) :
    (count = 0 ∧ bits < 0x80) ∨ (count = 1 ∧ bits < 0x20) ∨ (count = 2 ∧ bits < 0x10) ∨
      (count = 3 ∧ bits < 8) := by
  unfold lead at leads
  grind

theorem extend_injective {bits others : Nat} {tails rest : List UInt8}
    (tail : ∀ byte ∈ tails, IsTail byte) (tail' : ∀ byte ∈ rest, IsTail byte)
    (length : tails.length = rest.length) (same : extend bits tails = extend others rest) :
    bits = others ∧ tails = rest := by
  induction tails generalizing bits others rest with
  | nil =>
    obtain rfl : rest = [] := length_eq_zero_iff.mp length.symm
    exact ⟨same, rfl⟩
  | cons byte tails ih =>
    obtain _ | ⟨byte', rest⟩ := rest
    · exact absurd length nofun
    · obtain ⟨low, high⟩ := tail byte mem_cons_self
      obtain ⟨low', high'⟩ := tail' byte' mem_cons_self
      rw [extend, extend] at same
      obtain ⟨equal, rfl⟩ := ih (fun other mem => tail other (.tail byte mem))
        (fun other mem => tail' other (.tail byte' mem)) (Nat.succ.inj length) same
      have bytes : byte = byte' := UInt8.toNat_inj.mp (by omega)
      exact ⟨by omega, congrArg (· :: tails) bytes⟩

/-- One form of a length has a number. -/
theorem Form.eq_of_length {other : List UInt8} (form : Form text number) (form' : Form other number)
    (length : text.length = other.length) : text = other := by
  generalize same : number = number' at form'
  obtain ⟨leads, tails⟩ := form
  obtain ⟨leads', tails'⟩ := form'
  have lengths := Nat.succ.inj length
  obtain ⟨rfl, rfl⟩ := extend_injective tails tails' lengths same
  rw [lead_injective leads leads']

theorem Form.lt (form : Form text number) : number < 0x200000 := by
  obtain @⟨first, tails, bits, leads, tail⟩ := form
  have grows : ∀ (tails : List UInt8) (bits : Nat), (∀ byte ∈ tails, IsTail byte) →
      extend bits tails < (bits + 1) * 64 ^ tails.length := by
    intro tails
    induction tails with
    | nil => exact fun bits _ => Nat.lt_of_lt_of_eq bits.lt_succ_self (Nat.mul_one _).symm
    | cons byte tails ih =>
      intro bits tail
      obtain ⟨low, high⟩ := tail byte mem_cons_self
      have rest := ih (bits * 64 + byte.toNat % 64) fun other mem =>
        tail other (.tail byte mem)
      rw [extend, length_cons, pow_succ', ← mul_assoc]
      refine rest.trans_le ?_
      exact Nat.mul_le_mul_right _ (by omega)
  have bounded := grows tails bits tail
  obtain ⟨count, low⟩ | ⟨count, low⟩ | ⟨count, low⟩ | ⟨count, low⟩ := lead_bound leads <;>
    rw [count] at bounded <;> omega

/-! ### Cutting a text into forms -/

theorem Form.begins {other rest more : List UInt8} {number' : Nat} (form : Form text number)
    (form' : Form other number') (same : text ++ rest = other ++ more) :
    text = other ∧ number = number' ∧ rest = more := by
  obtain @⟨first, tails, bits, leads, tail⟩ := form
  obtain @⟨first', tails', bits', leads', tail'⟩ := form'
  obtain ⟨rfl, following⟩ := List.cons.inj same
  obtain ⟨lengths, rfl⟩ := Prod.mk.inj (Option.some.inj (leads.symm.trans leads'))
  obtain ⟨rfl, rfl⟩ := append_inj following lengths
  exact ⟨rfl, rfl, rfl⟩

theorem forms_unique {parts others : List (List UInt8 × Nat)}
    (forms : ∀ part ∈ parts, Form part.1 part.2) (forms' : ∀ part ∈ others, Form part.1 part.2)
    (same : parts.flatMap Prod.fst = others.flatMap Prod.fst) : parts = others := by
  induction parts generalizing others with
  | nil =>
    obtain _ | ⟨other, others⟩ := others
    · rfl
    · have empty := append_eq_nil_iff.mp same.symm
      exact absurd empty.1 (forms' other mem_cons_self).ne_nil
  | cons part parts ih =>
    obtain _ | ⟨other, others⟩ := others
    · have empty := append_eq_nil_iff.mp same
      exact absurd empty.1 (forms part mem_cons_self).ne_nil
    · obtain ⟨text, number, rest⟩ := (forms part mem_cons_self).begins
        (forms' other mem_cons_self) same
      obtain rfl := ih (fun form mem => forms form (.tail part mem))
        (fun form mem => forms' form (.tail other mem)) rest
      exact congrArg (· :: parts) (Prod.ext text number)

/-! ### Characters -/

theorem toNat_ofNat_of_lt (bound : number < 256) : (UInt8.ofNat number).toNat = number := by
  rw [UInt8.toNat_ofNat', Nat.mod_eq_of_lt bound]

theorem valid_lt (char : Char) : char.val.toNat < 0x110000 := by
  obtain below | ⟨_, below⟩ := char.valid
  · exact below.trans (by decide)
  · exact below

theorem extend_map_ofNat {tails : List Nat} (tail : ∀ byte ∈ tails, byte < 0x100) (bits : Nat) :
    extend bits (tails.map UInt8.ofNat) =
      tails.foldl (fun number byte => number * 64 + byte % 64) bits := by
  induction tails generalizing bits with
  | nil => rfl
  | cons byte tails ih =>
    rw [map_cons, extend, toNat_ofNat_of_lt (tail byte mem_cons_self), foldl_cons]
    exact ih (fun other mem => tail other (.tail byte mem)) _

/-- A form whose bytes are given as numbers. -/
theorem Form.ofNat (first : Nat) (tails : List Nat) (bits : Nat)
    (leads : lead (.ofNat first) = some (tails.length, bits))
    (tail : ∀ byte ∈ tails, 0x80 ≤ byte ∧ byte < 0xC0)
    (same : tails.foldl (fun number byte => number * 64 + byte % 64) bits = number) :
    Form (.ofNat first :: tails.map UInt8.ofNat) number := by
  have small : ∀ byte ∈ tails, byte < 0x100 := fun byte mem =>
    (tail byte mem).2.trans (by decide)
  rw [← same, ← extend_map_ofNat small]
  refine Form.intro (by rw [length_map]; exact leads) ?_
  rw [forall_mem_map]
  intro byte mem
  rw [IsTail, toNat_ofNat_of_lt (small byte mem)]
  exact tail byte mem

/-- What the encoder of Lean writes for a character is its form. -/
theorem Form.encodeChar (char : Char) : Form (String.utf8EncodeChar char) char.val.toNat := by
  have valid := valid_lt char
  have tail : ∀ number, 0x80 ≤ number % 0x40 + 0x80 ∧ number % 0x40 + 0x80 < 0xC0 :=
    fun number => by omega
  unfold String.utf8EncodeChar
  generalize char.val.toNat = number at valid
  dsimp only
  split
  · refine Form.ofNat number [] number ?_ nofun rfl
    rw [lead, toNat_ofNat_of_lt (by omega), if_pos (by omega)]
    rfl
  · split
    · refine Form.ofNat (number / 64 % 0x20 + 0xC0) [number % 0x40 + 0x80] (number / 64 % 0x20)
        ?_ ?_ ?_
      · rw [lead, toNat_ofNat_of_lt (by omega)]
        grind
      · simp [tail]
      · simp only [foldl_cons, foldl_nil]
        omega
    · split
      · refine Form.ofNat (number / 4096 % 0x10 + 0xE0)
          [number / 64 % 0x40 + 0x80, number % 0x40 + 0x80] (number / 4096 % 0x10) ?_ ?_ ?_
        · rw [lead, toNat_ofNat_of_lt (by omega)]
          grind
        · simp [tail]
        · simp only [foldl_cons, foldl_nil]
          omega
      · refine Form.ofNat (number / 262144 % 0x08 + 0xF0)
          [number / 4096 % 0x40 + 0x80, number / 64 % 0x40 + 0x80, number % 0x40 + 0x80]
          (number / 262144 % 0x08) ?_ ?_ ?_
        · rw [lead, toNat_ofNat_of_lt (by omega)]
          grind
        · simp [tail]
        · simp only [foldl_cons, foldl_nil]
          omega

theorem Proper.encodeChar (char : Char) : Proper (String.utf8EncodeChar char) char.val.toNat := by
  refine ⟨valid_lt char, ?_⟩
  unfold String.utf8EncodeChar size
  generalize char.val.toNat = number
  dsimp only
  split_ifs <;> first | rfl | omega

theorem Form.eq_encodeChar {char : Char} (form : Form text char.val.toNat)
    (proper : Proper text char.val.toNat) : text = String.utf8EncodeChar char :=
  form.eq_of_length (.encodeChar char) (proper.2.trans (Proper.encodeChar char).2.symm)

end Utf8

end Splintermail
