import Mathlib

/-!
# Bytes in memory

A memory gives the byte at each address. Blocks are read and written whole, numbers are stored in a
fixed number of bytes with the lowest first, and a number that does not fit loses its upper part.

* `read_write`, `write_apply_of_not` — a block that was written is read back, and nothing else changes.
* `read_congr`, `load_congr`, `readAll_congr` — what is read depends on the bytes read only, wherever
  they are.
-/

/-! ### Numbers as bytes -/

/-- The lower `w` bytes of a number. -/
def Nat.toBytes : ℕ → ℕ → List UInt8
  | 0, _ => []
  | w + 1, v => UInt8.ofNat v :: Nat.toBytes w (v / 256)

def Nat.ofBytes : List UInt8 → ℕ
  | [] => 0
  | b :: bs => b.toNat + 256 * Nat.ofBytes bs

theorem Nat.length_toBytes (w v : ℕ) : (Nat.toBytes w v).length = w := by
  induction w generalizing v with
  | zero => rfl
  | succ w ih => rw [Nat.toBytes, List.length_cons, ih]

theorem Nat.ofBytes_toBytes (w v : ℕ) : Nat.ofBytes (Nat.toBytes w v) = v % 256 ^ w := by
  induction w generalizing v with
  | zero => simp [Nat.toBytes, Nat.ofBytes, Nat.mod_one]
  | succ w ih =>
    have hpow : 256 ^ (w + 1) = 256 * 256 ^ w := Nat.pow_succ'
    rw [Nat.toBytes, Nat.ofBytes, ih, UInt8.toNat_ofNat', hpow]
    exact Nat.mod_mul.symm

/-! ### Memory -/

abbrev Memory := ℕ → UInt8

namespace Memory

/-- The `n` bytes from `a` on. -/
def read (m : Memory) (a : ℕ) : ℕ → List UInt8
  | 0 => []
  | n + 1 => m a :: read m (a + 1) n

/-- The bytes are written from `a` on. -/
def write (m : Memory) (a : ℕ) : List UInt8 → Memory
  | [] => m
  | b :: bs => fun x => if x = a then b else write m (a + 1) bs x

/-- The number in the `w` bytes from `a` on. -/
def load (m : Memory) (w a : ℕ) : ℕ := Nat.ofBytes (m.read a w)

def store (m : Memory) (w a v : ℕ) : Memory := m.write a (Nat.toBytes w v)

/-- `n` bytes are copied. -/
def copy (m : Memory) (src dst n : ℕ) : Memory :=
  fun x => if dst ≤ x ∧ x < dst + n then m (src + (x - dst)) else m x

/-- Blocks of one size are written one after the other. -/
def writeAll (m : Memory) (size : ℕ) : ℕ → List (List UInt8) → Memory
  | _, [] => m
  | a, b :: bs => (m.write a b).writeAll size (a + size) bs

/-- `n` blocks of one size. -/
def readAll (m : Memory) (size : ℕ) : ℕ → ℕ → List (List UInt8)
  | _, 0 => []
  | a, n + 1 => m.read a size :: m.readAll size (a + size) n

variable {m m' : Memory} {a a' n w v x : ℕ}

theorem write_cons (b : UInt8) (bs : List UInt8) :
    m.write a (b :: bs) x = if x = a then b else m.write (a + 1) bs x := rfl

theorem write_apply_of_not {bs : List UInt8} (h : x < a ∨ a + bs.length ≤ x) :
    m.write a bs x = m x := by
  induction bs generalizing a with
  | nil => rfl
  | cons b bs ih =>
    rw [List.length_cons] at h
    rw [write_cons, if_neg (by omega), ih (by omega)]

theorem read_congr (h : ∀ i < n, m (a + i) = m' (a' + i)) : m.read a n = m'.read a' n := by
  induction n generalizing a a' with
  | zero => rfl
  | succ n ih =>
    have hhead := h 0 (Nat.succ_pos n)
    have htail : m.read (a + 1) n = m'.read (a' + 1) n := by
      refine ih fun i hi => ?_
      simpa [Nat.add_assoc, Nat.add_comm 1 i] using h (i + 1) (by omega)
    rw [read, read, htail]
    exact congrArg (· :: _) hhead

theorem load_congr (h : ∀ i < w, m (a + i) = m' (a' + i)) : m.load w a = m'.load w a' :=
  congrArg Nat.ofBytes (read_congr h)

theorem read_write (bs : List UInt8) : (m.write a bs).read a bs.length = bs := by
  induction bs generalizing a with
  | nil => rfl
  | cons b bs ih =>
    have htail : (m.write a (b :: bs)).read (a + 1) bs.length = bs := by
      rw [← read_congr (a := a + 1), ih]
      intro i _
      rw [write_cons, if_neg (by omega)]
    rw [List.length_cons, read, htail, write_cons, if_pos rfl]

theorem store_apply_of_not (h : x < a ∨ a + w ≤ x) : m.store w a v x = m x :=
  write_apply_of_not (by rwa [Nat.length_toBytes])

/-- A stored number keeps its lower bytes. -/
theorem load_store_mod : (m.store w a v).load w a = v % 256 ^ w := by
  have hread : (m.store w a v).read a w = Nat.toBytes w v := by
    have hblock := read_write (m := m) (a := a) (Nat.toBytes w v)
    rwa [Nat.length_toBytes] at hblock
  rw [load, hread, Nat.ofBytes_toBytes]

/-- A number that fits is loaded as it was stored. -/
theorem load_store (h : v < 256 ^ w) : (m.store w a v).load w a = v := by
  rw [load_store_mod, Nat.mod_eq_of_lt h]

theorem load_store_of_not {w' : ℕ} (h : a + w ≤ a' ∨ a' + w' ≤ a) :
    (m.store w' a' v).load w a = m.load w a :=
  load_congr fun i _ => store_apply_of_not (by omega)

theorem copy_apply_of_lt {src dst i : ℕ} (h : i < n) : m.copy src dst n (dst + i) = m (src + i) := by
  rw [copy, if_pos (by omega), Nat.add_sub_cancel_left]

variable {size : ℕ} {bs : List (List UInt8)}

theorem writeAll_apply_of_not (hbs : ∀ b ∈ bs, b.length = size)
    (h : x < a ∨ a + bs.length * size ≤ x) : m.writeAll size a bs x = m x := by
  induction bs generalizing m a with
  | nil => rfl
  | cons b bs ih =>
    have hb := hbs b List.mem_cons_self
    rw [List.length_cons, Nat.succ_mul] at h
    rw [writeAll, ih (fun c hc => hbs c (List.mem_cons_of_mem b hc)) (by omega),
      write_apply_of_not (by omega)]

theorem load_writeAll_of_not (hbs : ∀ b ∈ bs, b.length = size)
    (h : a + w ≤ a' ∨ a' + bs.length * size ≤ a) : (m.writeAll size a' bs).load w a = m.load w a :=
  load_congr fun i _ => writeAll_apply_of_not hbs (by omega)

theorem readAll_congr (h : ∀ i < n * size, m (a + i) = m' (a' + i)) :
    m.readAll size a n = m'.readAll size a' n := by
  induction n generalizing a a' with
  | zero => rfl
  | succ n ih =>
    rw [Nat.succ_mul] at h
    have hhead : m.read a size = m'.read a' size := read_congr fun i hi => h i (by omega)
    have htail : m.readAll size (a + size) n = m'.readAll size (a' + size) n := by
      refine ih fun i hi => ?_
      simpa [Nat.add_assoc] using h (size + i) (by omega)
    rw [readAll, readAll, hhead, htail]

/-- The same for a run of blocks of one size. -/
theorem readAll_writeAll (hbs : ∀ b ∈ bs, b.length = size) :
    (m.writeAll size a bs).readAll size a bs.length = bs := by
  induction bs generalizing m a with
  | nil => rfl
  | cons b bs ih =>
    have hb := hbs b List.mem_cons_self
    have hrest : ∀ c ∈ bs, c.length = size := fun c hc => hbs c (List.mem_cons_of_mem b hc)
    -- the later blocks do not touch the first one
    have hhead : ((m.write a b).writeAll size (a + size) bs).read a size = b := by
      have hread : ((m.write a b).writeAll size (a + size) bs).read a size = (m.write a b).read a size :=
        read_congr fun i hi => writeAll_apply_of_not hrest (.inl (by omega))
      rw [hread, ← hb, read_write]
    rw [List.length_cons, writeAll, readAll, hhead, ih hrest]

theorem readAll_store_of_not (h : a + n * size ≤ a' ∨ a' + w ≤ a) :
    (m.store w a' v).readAll size a n = m.readAll size a n :=
  readAll_congr fun i _ => store_apply_of_not (by omega)

end Memory
