-- SUMMARY: Search trees over numbers that stand for texts, for checking large tables by evaluation.
import Lowering.Table

/-!
# Search trees

Comparing texts is slow in proofs by evaluation. A text is read as a number, which is compared at once,
and a tree over the binary digits of these numbers finds one among hundreds in a few steps.
-/

namespace Lowering

/-! ## Texts as numbers -/

/-- The number with the given digits, each raised by one, so that no digit is lost at the end. -/
def keyOfBytes : List UInt8 → Nat
  | [] => 0
  | b :: bs => b.toNat + 1 + 257 * keyOfBytes bs

theorem keyOfBytes_inj {bs bs' : List UInt8} (h : keyOfBytes bs = keyOfBytes bs') : bs = bs' := by
  induction bs generalizing bs' with
  | nil =>
    cases bs' with
    | nil => rfl
    | cons b' bs' =>
      simp only [keyOfBytes] at h
      omega
  | cons b bs ih =>
    cases bs' with
    | nil =>
      simp only [keyOfBytes] at h
      omega
    | cons b' bs' =>
      simp only [keyOfBytes] at h
      have hb : b.toNat < 256 := b.toNat_lt
      have hb' : b'.toNat < 256 := b'.toNat_lt
      have hhead : b.toNat = b'.toNat := by omega
      have htail : keyOfBytes bs = keyOfBytes bs' := by omega
      rw [UInt8.toNat_inj.mp hhead, ih htail]

/-- A text as a number. -/
def textKey (s : String) : Nat := keyOfBytes s.toByteArray.data.toList

theorem textKey_inj {s s' : String} : textKey s = textKey s' ↔ s = s' := by
  refine ⟨fun h => ?_, fun h => h ▸ rfl⟩
  have hbytes := keyOfBytes_inj h
  exact String.toByteArray_inj.mp (ByteArray.ext (Array.toList_inj.mp hbytes))

/-! ## Trees -/

inductive KeyTree (α : Type) where
  | leaf (items : List (Nat × α))
  | node (even odd : KeyTree α)

namespace KeyTree

variable {α : Type}

/-- The items whose key has the given last binary digit, without that digit. -/
def halved (digit : Nat) (items : List (Nat × α)) : List (Nat × α) :=
  (items.filter fun item => Nat.beq (item.1 % 2) digit).map fun item => (item.1 / 2, item.2)

/-- The tree of items that splits by the last `depth` binary digits of the keys. -/
def ofItems : Nat → List (Nat × α) → KeyTree α
  | 0, items => leaf items
  | depth + 1, items => node (ofItems depth (halved 0 items)) (ofItems depth (halved 1 items))

/-- The first item with the key. -/
def find? : KeyTree α → Nat → Option α
  | leaf items, key => (items.find? fun item => Nat.beq item.1 key).map Prod.snd
  | node even odd, key =>
    match Nat.beq (key % 2) 0 with
    | true => even.find? (key / 2)
    | false => odd.find? (key / 2)

/-- A key is known by its last digit and the rest. -/
theorem beq_halved (key key' : Nat) :
    (Nat.beq (key % 2) (key' % 2) && Nat.beq (key / 2) (key' / 2)) = Nat.beq key key' := by
  rw [Bool.eq_iff_iff, Bool.and_eq_true, Nat.beq_eq, Nat.beq_eq, Nat.beq_eq]
  omega

theorem find?_halved (items : List (Nat × α)) (key : Nat) :
    ((halved (key % 2) items).find? fun item => Nat.beq item.1 (key / 2)).map Prod.snd =
      (items.find? fun item => Nat.beq item.1 key).map Prod.snd := by
  simp only [halved, List.find?_map, List.find?_filter, Option.map_map, Function.comp_def,
    ← beq_halved _ key, Bool.decide_and, Bool.decide_eq_true]

theorem find?_ofItems (depth : Nat) (items : List (Nat × α)) (key : Nat) :
    (ofItems depth items).find? key =
      (items.find? fun item => Nat.beq item.1 key).map Prod.snd := by
  induction depth generalizing items key with
  | zero => rfl
  | succ depth ih =>
    rw [← find?_halved items key, ofItems, find?]
    rcases Nat.mod_two_eq_zero_or_one key with hdigit | hdigit
    · simp only [hdigit, Nat.beq_refl, ih]
    · simp only [hdigit, ih]

end KeyTree

end Lowering
