import Mathlib.Data.Vector.Basic
import Mathlib.Logic.Equiv.Prod

/-!
# Memory layouts of records without padding

A layout of a type in `n` bytes is a bijection with the vectors of `n` bytes, so that neither
writing a value nor reading arbitrary memory as a value loses anything. Layouts of the fields
compose to a layout of the record. `overwrite` is what a partial receive does to a buffer.
-/

abbrev Bytes (n : ℕ) := List.Vector UInt8 n

/-- A bijection of the values with the byte vectors of length `n`. -/
abbrev Layout (α : Type*) (n : ℕ) := α ≃ Bytes n

namespace Layout

variable {α β : Type*} {m n : ℕ}

/-- Two blocks of memory, one after the other. -/
def appendBytes (m n : ℕ) : Layout (Bytes m × Bytes n) (m + n) where
  toFun p := ⟨p.1.toList ++ p.2.toList, by simp⟩
  invFun v := (⟨v.toList.take m, by simp⟩, ⟨v.toList.drop m, by simp⟩)
  left_inv p := by
    apply Prod.ext <;> apply List.Vector.eq
    · exact List.take_left' p.1.toList_length
    · exact List.drop_left' p.1.toList_length
  right_inv v := List.Vector.eq _ _ (List.take_append_drop m v.toList)

/-- A field followed by the rest of the record. -/
def cons (a : Layout α m) (b : Layout β n) : Layout (α × β) (m + n) :=
  (a.prodCongr b).trans (appendBytes m n)

theorem snd_eq_of_drop_cons {a : Layout α m} {b : Layout β n} {x y : α × β}
    (h : (a.cons b x).toList.drop m = (a.cons b y).toList.drop m) : x.2 = y.2 := by
  apply b.injective
  apply List.Vector.eq
  have hdrop : ∀ z : α × β, (a.cons b z).toList.drop m = (b z.2).toList := fun z =>
    List.drop_left' (a z.1).toList_length
  rwa [hdrop, hdrop] at h

def arraySize (n : ℕ) : ℕ → ℕ
  | 0 => 0
  | k + 1 => n + arraySize n k

/-- An array of `k` elements. -/
def array (a : Layout α n) : (k : ℕ) → Layout (List.Vector α k) (arraySize n k)
  | 0 =>
    { toFun := fun _ => .nil
      invFun := fun _ => .nil
      left_inv := fun _ => Subsingleton.elim _ _
      right_inv := fun v => List.Vector.eq _ _ (List.length_eq_zero_iff.mp v.toList_length).symm }
  | k + 1 =>
    Equiv.trans
      { toFun := fun v => (v.head, v.tail)
        invFun := fun p => p.1 ::ᵥ p.2
        left_inv := fun v => v.cons_head_tail
        right_inv := fun p => by simp }
      (a.cons (array a k))

/-- The byte of weight `256 ^ i` of a word. -/
def wordByte (w : UInt32) (i : ℕ) : UInt8 := UInt8.ofNat (w.toNat / 256 ^ i)

def wordOfBytes (a b c d : UInt8) : UInt32 :=
  UInt32.ofNat (a.toNat + 256 * b.toNat + 256 ^ 2 * c.toNat + 256 ^ 3 * d.toNat)

theorem toNat_wordByte (w : UInt32) (i : ℕ) :
    (wordByte w i).toNat = w.toNat / 256 ^ i % 256 := UInt8.toNat_ofNat'

theorem toNat_wordOfBytes (a b c d : UInt8) :
    (wordOfBytes a b c d).toNat =
      a.toNat + 256 * b.toNat + 256 ^ 2 * c.toNat + 256 ^ 3 * d.toNat := by
  have ha := a.toNat_lt
  have hb := b.toNat_lt
  have hc := c.toNat_lt
  have hd := d.toNat_lt
  unfold wordOfBytes
  rw [UInt32.toNat_ofNat']
  omega

theorem wordOfBytes_wordByte (w : UInt32) :
    wordOfBytes (wordByte w 0) (wordByte w 1) (wordByte w 2) (wordByte w 3) = w := by
  have hw := w.toNat_lt
  apply UInt32.toNat_inj.mp
  rw [toNat_wordOfBytes]
  simp only [toNat_wordByte]
  omega

theorem wordByte_wordOfBytes (a b c d : UInt8) :
    wordByte (wordOfBytes a b c d) 0 = a ∧ wordByte (wordOfBytes a b c d) 1 = b ∧
      wordByte (wordOfBytes a b c d) 2 = c ∧ wordByte (wordOfBytes a b c d) 3 = d := by
  have ha := a.toNat_lt
  have hb := b.toNat_lt
  have hc := c.toNat_lt
  have hd := d.toNat_lt
  refine ⟨?_, ?_, ?_, ?_⟩ <;> apply UInt8.toNat_inj.mp <;>
    rw [toNat_wordByte, toNat_wordOfBytes] <;> omega

/-- A 32-bit word, least significant byte first. -/
def word : Layout UInt32 4 where
  toFun w := ⟨[wordByte w 0, wordByte w 1, wordByte w 2, wordByte w 3], rfl⟩
  invFun v := wordOfBytes (v.get 0) (v.get 1) (v.get 2) (v.get 3)
  left_inv w := wordOfBytes_wordByte w
  right_inv v := by
    obtain ⟨l, hl⟩ := v
    obtain ⟨a, b, c, d, rfl⟩ := List.length_eq_four.mp hl
    obtain ⟨ha, hb, hc, hd⟩ := wordByte_wordOfBytes a b c d
    apply List.Vector.eq
    change [wordByte (wordOfBytes a b c d) 0, wordByte (wordOfBytes a b c d) 1,
      wordByte (wordOfBytes a b c d) 2, wordByte (wordOfBytes a b c d) 3] = [a, b, c, d]
    rw [ha, hb, hc, hd]

/-- The buffer `old` after its first bytes were replaced by `new`. -/
def overwrite (old : Bytes n) (new : List UInt8) : Bytes n :=
  ⟨(new ++ old.toList.drop new.length).take n, by simp; omega⟩

/-- A buffer into which the first `j` bytes of `v` were received holds `v` exactly when it
already held the bytes that did not arrive. -/
theorem overwrite_take_eq_iff (v old : Bytes n) {j : ℕ} (hj : j ≤ n) :
    overwrite old (v.toList.take j) = v ↔ old.toList.drop j = v.toList.drop j := by
  have hlen : (v.toList.take j).length = j := by simp [hj]
  have htail : (old.toList.drop j).length = n - j := by simp
  have hval : (overwrite old (v.toList.take j)).toList = v.toList.take j ++ old.toList.drop j := by
    change (v.toList.take j ++ old.toList.drop (v.toList.take j).length).take n = _
    rw [hlen]
    exact List.take_of_length_le (by rw [List.length_append, hlen, htail]; omega)
  constructor
  · intro h
    rw [← h, hval, List.drop_left' hlen]
  · intro h
    apply List.Vector.eq
    rw [hval, h, List.take_append_drop]

end Layout
