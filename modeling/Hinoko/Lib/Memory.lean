import Mathlib

/-!
# Byte memory

A memory is a function from offsets to bytes.  `read` takes a run of bytes out of
it, `write` puts a run of bytes into it, and the lemmas say how the two meet:
`read_write_self` at the same place, `read_write_of_le` for a run that ends before,
`read_add` for a run read in two parts.

Words are four bytes with the least significant first (`le32`, `ofLe32`) or last
(`ofBe32`).
-/

/-- The bytes at every offset. -/
abbrev ByteMem := Nat → UInt8

namespace ByteMem

def read (m : ByteMem) (off n : Nat) : List UInt8 := (List.range n).map fun i => m (off + i)

/-- The memory after `bs` has been stored from `off` on. -/
def write (m : ByteMem) (off : Nat) (bs : List UInt8) : ByteMem :=
  fun i => if i < off then m i else bs[i - off]?.getD (m i)

@[simp] theorem length_read (m : ByteMem) (off n : Nat) : (m.read off n).length = n := by
  simp [read]

@[simp] theorem read_zero (m : ByteMem) (off : Nat) : m.read off 0 = [] := rfl

theorem getElem_read (m : ByteMem) (off n i : Nat) (h : i < (m.read off n).length) :
    (m.read off n)[i] = m (off + i) := by
  simp [read]

theorem read_congr {m m' : ByteMem} {off n : Nat} (h : ∀ i, off ≤ i → i < off + n → m i = m' i) :
    m.read off n = m'.read off n := by
  refine List.map_congr_left fun i hi => ?_
  have := List.mem_range.mp hi
  exact h (off + i) (by omega) (by omega)

theorem read_add (m : ByteMem) (off n k : Nat) :
    m.read off (n + k) = m.read off n ++ m.read (off + n) k := by
  simp [read, List.range_add, Nat.add_assoc]

theorem take_read (m : ByteMem) (off : Nat) {n k : Nat} (h : k ≤ n) :
    (m.read off n).take k = m.read off k := by
  obtain ⟨j, rfl⟩ := Nat.exists_eq_add_of_le h
  rw [read_add, List.take_left' (length_read m off k)]

theorem drop_read (m : ByteMem) (off : Nat) {n k : Nat} (h : k ≤ n) :
    (m.read off n).drop k = m.read (off + k) (n - k) := by
  obtain ⟨j, rfl⟩ := Nat.exists_eq_add_of_le h
  rw [read_add, List.drop_left' (length_read m off k), Nat.add_sub_cancel_left]

theorem write_of_lt (m : ByteMem) {off i : Nat} (bs : List UInt8) (h : i < off) :
    m.write off bs i = m i := by
  simp [write, h]

theorem write_of_ge (m : ByteMem) {off i : Nat} (bs : List UInt8) (h : off + bs.length ≤ i) :
    m.write off bs i = m i := by
  rw [write, if_neg (by omega), List.getElem?_eq_none (by omega)]
  rfl

theorem write_of_mem (m : ByteMem) {off i : Nat} (bs : List UInt8) (hlo : off ≤ i)
    (hhi : i - off < bs.length) : m.write off bs i = bs[i - off] := by
  rw [write, if_neg (by omega), List.getElem?_eq_getElem hhi]
  rfl

@[simp] theorem write_nil (m : ByteMem) (off : Nat) : m.write off [] = m := by
  funext i
  simp [write]

theorem read_write_self (m : ByteMem) (off : Nat) (bs : List UInt8) :
    (m.write off bs).read off bs.length = bs := by
  apply List.ext_getElem (by simp)
  intro i h1 h2
  rw [getElem_read, write_of_mem m bs (by omega) (by omega)]
  simp

theorem read_write_of_le (m : ByteMem) {off n o : Nat} (bs : List UInt8) (h : off + n ≤ o) :
    (m.write o bs).read off n = m.read off n :=
  read_congr fun _ _ hi => write_of_lt m bs (by omega)

/-- **A store at the end of what is there appends to it.** -/
theorem read_write_append (m : ByteMem) (off n : Nat) (bs : List UInt8) :
    (m.write (off + n) bs).read off (n + bs.length) = m.read off n ++ bs := by
  rw [read_add, read_write_of_le m bs (Nat.le_refl _), read_write_self]

/-- Two runs that are stored one behind the other are read as one. -/
theorem read_write_write (m : ByteMem) (off : Nat) (bs cs : List UInt8) :
    ((m.write off bs).write (off + bs.length) cs).read off (bs.length + cs.length) = bs ++ cs := by
  rw [read_write_append, read_write_self]

end ByteMem

/-! ### Words -/

def le32 (w : UInt32) : List UInt8 :=
  [UInt8.ofNat (w.toNat % 256), UInt8.ofNat (w.toNat / 256 % 256),
    UInt8.ofNat (w.toNat / 65536 % 256), UInt8.ofNat (w.toNat / 16777216 % 256)]

def ofLe32 (b0 b1 b2 b3 : UInt8) : UInt32 :=
  UInt32.ofNat (b0.toNat + 256 * b1.toNat + 65536 * b2.toNat + 16777216 * b3.toNat)

def ofBe32 (b0 b1 b2 b3 : UInt8) : UInt32 := ofLe32 b3 b2 b1 b0

@[simp] theorem length_le32 (w : UInt32) : (le32 w).length = 4 := rfl

theorem ofLe32_le32 (w : UInt32) :
    ofLe32 (UInt8.ofNat (w.toNat % 256)) (UInt8.ofNat (w.toNat / 256 % 256))
      (UInt8.ofNat (w.toNat / 65536 % 256)) (UInt8.ofNat (w.toNat / 16777216 % 256)) = w := by
  have hw := w.toNat_lt
  apply UInt32.toNat_inj.mp
  simp only [ofLe32, UInt8.toNat_ofNat', UInt32.toNat_ofNat']
  omega

namespace ByteMem

def le32At (m : ByteMem) (off : Nat) : UInt32 :=
  ofLe32 (m off) (m (off + 1)) (m (off + 2)) (m (off + 3))

def be32At (m : ByteMem) (off : Nat) : UInt32 :=
  ofBe32 (m off) (m (off + 1)) (m (off + 2)) (m (off + 3))

theorem le32At_of_read {m : ByteMem} {off : Nat} {w : UInt32} (h : m.read off 4 = le32 w) :
    m.le32At off = w := by
  have e : m.read off 4 = [m off, m (off + 1), m (off + 2), m (off + 3)] := rfl
  rw [e, le32] at h
  simp only [List.cons.injEq, and_true] at h
  obtain ⟨h0, h1, h2, h3⟩ := h
  rw [le32At, h0, h1, h2, h3, ofLe32_le32]

end ByteMem
