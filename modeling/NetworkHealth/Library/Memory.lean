import Mathlib.Data.UInt
import Mathlib.Data.List.Basic

/-! Memory as a program sees it that copies structures out of buffers: unsigned integers as the
bytes that hold them, in either order, and reads that leave a record of every position touched. -/
namespace NetworkHealth

section Integers

inductive ByteOrder
  | little
  | big
  deriving DecidableEq, Repr

/-- The bytes of a number, the least significant one first. -/
def littleBytes : ℕ → ℕ → List UInt8
  | 0, _ => []
  | width + 1, n => UInt8.ofNat n :: littleBytes width (n / 256)

def ofLittleBytes : List UInt8 → ℕ
  | [] => 0
  | b :: bs => b.toNat + 256 * ofLittleBytes bs

namespace ByteOrder

def store : ByteOrder → ℕ → ℕ → List UInt8
  | little, width, n => littleBytes width n
  | big, width, n => (littleBytes width n).reverse

def load : ByteOrder → List UInt8 → ℕ
  | little, bs => ofLittleBytes bs
  | big, bs => ofLittleBytes bs.reverse

end ByteOrder

theorem length_littleBytes (width n : ℕ) : (littleBytes width n).length = width := by
  induction width generalizing n with
  | zero => rfl
  | succ width ih => rw [littleBytes, List.length_cons, ih]

theorem ofLittleBytes_littleBytes {width n : ℕ} (h : n < 256 ^ width) : ofLittleBytes (littleBytes width n) = n := by
  induction width generalizing n with
  | zero =>
    have hzero : n = 0 := by omega
    rw [hzero, littleBytes, ofLittleBytes]
  | succ width ih =>
    have hrest : n / 256 < 256 ^ width := by
      rw [pow_succ, Nat.mul_comm] at h
      exact Nat.div_lt_of_lt_mul h
    rw [littleBytes, ofLittleBytes, ih hrest, UInt8.toNat_ofNat']
    omega

theorem littleBytes_ofLittleBytes (bs : List UInt8) : littleBytes bs.length (ofLittleBytes bs) = bs := by
  induction bs with
  | nil => rfl
  | cons b bs ih =>
    have hb : b.toNat < 256 := b.toNat_lt
    have hquotient : (b.toNat + 256 * ofLittleBytes bs) / 256 = ofLittleBytes bs := by omega
    have hremainder : UInt8.ofNat (b.toNat + 256 * ofLittleBytes bs) = b := by
      apply UInt8.toNat_inj.mp
      rw [UInt8.toNat_ofNat']
      omega
    rw [List.length_cons, ofLittleBytes, littleBytes, hquotient, hremainder, ih]

theorem ofLittleBytes_lt (bs : List UInt8) : ofLittleBytes bs < 256 ^ bs.length := by
  induction bs with
  | nil => decide
  | cons b bs ih =>
    have hb : b.toNat < 256 := b.toNat_lt
    rw [ofLittleBytes, List.length_cons, pow_succ]
    omega

namespace ByteOrder
variable (order : ByteOrder)

@[simp] theorem length_store (width n : ℕ) : (order.store width n).length = width := by
  cases order <;> simp [store, length_littleBytes]

theorem load_store {width n : ℕ} (h : n < 256 ^ width) : order.load (order.store width n) = n := by
  cases order <;> simp [store, load, ofLittleBytes_littleBytes h]

theorem store_load {width : ℕ} {bs : List UInt8} (h : bs.length = width) : order.store width (order.load bs) = bs := by
  subst h
  cases order with
  | little => exact littleBytes_ofLittleBytes bs
  | big =>
    have hreversed := littleBytes_ofLittleBytes bs.reverse
    rw [List.length_reverse] at hreversed
    rw [store, load, hreversed, List.reverse_reverse]

theorem load_lt (bs : List UInt8) : order.load bs < 256 ^ bs.length := by
  cases order with
  | little => exact ofLittleBytes_lt bs
  | big => simpa [load] using ofLittleBytes_lt bs.reverse

/-- Four bytes are loaded as a word exactly if they are the bytes of that word. -/
theorem ofNat_load_eq_iff {bs : List UInt8} (h : bs.length = 4) (n : UInt32) :
    UInt32.ofNat (order.load bs) = n ↔ bs = order.store 4 n.toNat := by
  constructor
  · rintro rfl
    have hlt : order.load bs < 2 ^ 32 := (order.load_lt bs).trans_eq (by rw [h]; rfl)
    rw [UInt32.toNat_ofNat', Nat.mod_eq_of_lt hlt, order.store_load h]
  · rintro rfl
    rw [order.load_store n.toNat_lt, UInt32.ofNat_toNat]

end ByteOrder
end Integers

section Reads

/-- What a program has read from a buffer, at which positions, and what it has made of it; none
if it has given up. -/
structure Reading (α : Type*) where
  result : Option α
  touched : List ℕ

namespace Reading
variable {α β : Type}

instance : Monad Reading where
  pure a := ⟨some a, []⟩
  bind r f := match r.result with
    | none => ⟨none, r.touched⟩
    | some a => ⟨(f a).result, r.touched ++ (f a).touched⟩

def giveUp : Reading α := ⟨none, []⟩

/-- Copies bytes out of a buffer. -/
def fetch (buffer : ℕ → UInt8) (offset count : ℕ) : Reading (List UInt8) :=
  ⟨some ((List.range' offset count).map buffer), List.range' offset count⟩

/-- Every position that has been read lies before this one. -/
def Within (n : ℕ) (r : Reading α) : Prop := ∀ i ∈ r.touched, i < n

@[simp] theorem result_pure (a : α) : (pure a : Reading α).result = some a := rfl
@[simp] theorem result_giveUp : (giveUp : Reading α).result = none := rfl
@[simp] theorem result_fetch (buffer : ℕ → UInt8) (offset count : ℕ) :
    (fetch buffer offset count).result = some ((List.range' offset count).map buffer) := rfl

@[simp] theorem result_bind (r : Reading α) (f : α → Reading β) :
    (r >>= f).result = r.result.bind fun a => (f a).result := by
  obtain ⟨result, touched⟩ := r
  cases result <;> rfl

@[simp] theorem result_ite (p : Prop) [Decidable p] (r s : Reading α) :
    (if p then r else s).result = if p then r.result else s.result := apply_ite Reading.result p r s

variable {n : ℕ}

theorem within_pure (a : α) : Within n (pure a : Reading α) := nofun

theorem within_giveUp : Within n (giveUp : Reading α) := nofun

theorem within_fetch {offset count : ℕ} (h : offset + count ≤ n) (buffer : ℕ → UInt8) :
    Within n (fetch buffer offset count) := by
  intro i hi
  obtain ⟨-, hlt⟩ := List.mem_range'_1.mp hi
  exact hlt.trans_le h

/-- A computation stays within bounds that both its parts keep, the second after every result
of the first. -/
theorem Within.bind {r : Reading α} {f : α → Reading β} (hr : Within n r)
    (hf : ∀ a, r.result = some a → Within n (f a)) : Within n (r >>= f) := by
  obtain ⟨result, touched⟩ := r
  cases result with
  | none => exact hr
  | some a =>
    intro i hi
    rcases List.mem_append.mp hi with hfirst | hsecond
    · exact hr i hfirst
    · exact hf a rfl i hsecond

theorem Within.ite {p : Prop} [Decidable p] {r s : Reading α} (hr : p → Within n r) (hs : ¬ p → Within n s) :
    Within n (if p then r else s) := by
  split_ifs with h
  · exact hr h
  · exact hs h

end Reading

/-- What a buffer holds from a position on. -/
def Holds (buffer : ℕ → UInt8) (offset : ℕ) (bs : List UInt8) : Prop :=
  (List.range' offset bs.length).map buffer = bs

theorem holds_append_iff {buffer : ℕ → UInt8} {offset : ℕ} {as bs : List UInt8} :
    Holds buffer offset (as ++ bs) ↔ Holds buffer offset as ∧ Holds buffer (offset + as.length) bs := by
  unfold Holds
  rw [List.length_append, ← List.range'_append_1, List.map_append]
  constructor
  · intro h
    exact List.append_inj h (by simp)
  · rintro ⟨has, hbs⟩
    rw [has, hbs]

theorem holds_cons_iff {buffer : ℕ → UInt8} {offset : ℕ} {b : UInt8} {bs : List UInt8} :
    Holds buffer offset (b :: bs) ↔ buffer offset = b ∧ Holds buffer (offset + 1) bs := by
  simp [Holds, List.range'_succ]

theorem holds_getD (bs : List UInt8) : Holds (fun i => bs.getD i 0) 0 bs := by
  apply List.ext_getElem
  · simp
  · intro i hi hi'
    simp [List.getElem?_eq_getElem hi']

end Reads
end NetworkHealth
