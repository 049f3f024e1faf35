import Mathlib.Data.List.Basic
import Mathlib.Data.Nat.ModEq
import Mathlib.Logic.Function.Basic
import Mathlib.Tactic.Ring

/-! # Ring memories

A memory of `2 ^ A` slots addressed by free-running pointers of `A + 1` bits
holds a stretch of an unbounded stream. The stream is indexed by natural
numbers; `ptr` is the register that stands for an index. -/

namespace MiscVerilogCores.RingMemory

variable {A : ℕ} {α : Type*}

/-! ## Pointers -/

/-- The pointer of index `n`; it wraps at twice the number of slots. -/
def ptr (A n : ℕ) : BitVec (A + 1) := BitVec.ofNat (A + 1) n

/-- The slot a pointer addresses: all of its bits but the top one. -/
def slot (p : BitVec (A + 1)) : BitVec A := p.setWidth A

@[simp] theorem ptr_add_one (n : ℕ) : ptr A n + 1#(A + 1) = ptr A (n + 1) := by
  simp [ptr, BitVec.ofNat_add]

theorem ptr_add (n k : ℕ) : ptr A n + BitVec.ofNat (A + 1) k = ptr A (n + k) := by
  simp [ptr, BitVec.ofNat_add]

theorem slot_ptr (n : ℕ) : slot (ptr A n) = BitVec.ofNat A n := by
  apply BitVec.eq_of_toNat_eq
  simp only [slot, ptr, BitVec.toNat_setWidth, BitVec.toNat_ofNat]
  exact Nat.mod_mod_of_dvd n (pow_dvd_pow 2 (Nat.le_succ A))

theorem mod_eq_iff_of_window {m r w : ℕ} (hrw : r ≤ w) (hw : w ≤ r + m) (hm : 0 < m) :
    w % m = r % m ↔ w = r ∨ w = r + m := by
  constructor
  · intro h
    have hd : m ∣ w - r := (Nat.modEq_iff_dvd' hrw).mp (show r ≡ w [MOD m] from h.symm)
    obtain ⟨k, hk⟩ := hd
    match k with
    | 0 => left; omega
    | 1 => right; omega
    | k + 2 =>
        have h2 : m * 2 ≤ m * (k + 2) := Nat.mul_le_mul_left m (by omega)
        have : m * 2 = m + m := by ring
        left; omega
  · rintro (rfl | rfl)
    · rfl
    · simp

/-- Two pointers at most one lap apart address the same slot when they are equal
or exactly a lap apart. -/
theorem slot_ptr_eq_iff {r w : ℕ} (hrw : r ≤ w) (hw : w ≤ r + 2 ^ A) :
    slot (ptr A w) = slot (ptr A r) ↔ w = r ∨ w = r + 2 ^ A := by
  rw [slot_ptr, slot_ptr, ← mod_eq_iff_of_window hrw hw (Nat.two_pow_pos A)]
  constructor
  · intro h
    simpa using congrArg BitVec.toNat h
  · intro h
    apply BitVec.eq_of_toNat_eq
    simpa using h

/-- Two pointers at most one lap apart are equal only at the same index. -/
theorem ptr_eq_iff {r w : ℕ} (hrw : r ≤ w) (hw : w ≤ r + 2 ^ A) :
    ptr A w = ptr A r ↔ w = r := by
  constructor
  · intro h
    have hpos := Nat.two_pow_pos A
    have hmod : w % 2 ^ (A + 1) = r % 2 ^ (A + 1) := by
      simpa [ptr] using congrArg BitVec.toNat h
    have hlap : 2 ^ (A + 1) = 2 * 2 ^ A := by ring
    rw [mod_eq_iff_of_window hrw (by omega) (by omega)] at hmod
    omega
  · rintro rfl
    rfl

/-- A pointer is its top bit and its slot. -/
theorem slot_eq_and_msb_eq (p q : BitVec (A + 1)) :
    slot p = slot q ∧ p.msb = q.msb ↔ p = q := by
  constructor
  · rintro ⟨hs, hm⟩
    rw [← BitVec.cons_msb_setWidth p, ← BitVec.cons_msb_setWidth q, hm]
    exact congrArg _ hs
  · rintro rfl
    exact ⟨rfl, rfl⟩

/-- The usual full test: same slot, different lap. -/
theorem slot_eq_and_msb_ne_iff {r w : ℕ} (hrw : r ≤ w) (hw : w ≤ r + 2 ^ A) :
    slot (ptr A w) = slot (ptr A r) ∧ (ptr A w).msb ≠ (ptr A r).msb ↔ w = r + 2 ^ A := by
  constructor
  · rintro ⟨hs, hm⟩
    rcases (slot_ptr_eq_iff hrw hw).mp hs with rfl | h
    · exact absurd rfl hm
    · exact h
  · intro h
    have hs : slot (ptr A w) = slot (ptr A r) := (slot_ptr_eq_iff hrw hw).mpr (Or.inr h)
    refine ⟨hs, fun hm => ?_⟩
    have := (ptr_eq_iff hrw hw).mp ((slot_eq_and_msb_eq _ _).mp ⟨hs, hm⟩)
    have hpos := Nat.two_pow_pos A
    omega

theorem toNat_ptr_sub {r w : ℕ} (hrw : r ≤ w) (hw : w ≤ r + 2 ^ A) :
    (ptr A w - ptr A r).toNat = w - r := by
  have hpos := Nat.two_pow_pos A
  have hlap : 2 ^ (A + 1) = 2 * 2 ^ A := by ring
  obtain ⟨d, rfl⟩ := Nat.exists_eq_add_of_le hrw
  have hsub : ptr A (r + d) - ptr A r = BitVec.ofNat (A + 1) d := by
    rw [← ptr_add, BitVec.add_comm, BitVec.add_sub_cancel]
  rw [hsub, BitVec.toNat_ofNat, Nat.mod_eq_of_lt (by omega)]
  omega

/-- The distance of two slots. -/
theorem slot_sub {r w : ℕ} (hrw : r ≤ w) :
    slot (ptr A w) - slot (ptr A r) = BitVec.ofNat A (w - r) := by
  obtain ⟨d, rfl⟩ := Nat.exists_eq_add_of_le hrw
  rw [slot_ptr, slot_ptr, BitVec.ofNat_add, BitVec.add_comm, BitVec.add_sub_cancel,
    Nat.add_sub_cancel_left]

/-! ## Registered full and empty flags

A flag register holds the answer for the pointers after the edge, computed from the
pointers before it and the strobes that move them. -/

/-- After the edge the write pointer will be a lap ahead of the read pointer. -/
def fullNext (waddr raddr : BitVec (A + 1)) (store fetch : Bool) : Bool :=
  (slot waddr == slot raddr && waddr.msb != raddr.msb && fetch == store) ||
    (slot (waddr + 1) == slot raddr && store && !fetch)

/-- After the edge the read pointer will have caught up with the pointer `paddr`
that bounds it, unless `accept` moves that pointer on. -/
def emptyNext (paddr raddr : BitVec (A + 1)) (accept fetch : Bool) : Bool :=
  (paddr == raddr && fetch == accept) || (slot (raddr + 1) == slot paddr && fetch && !accept)

theorem fullNext_ptr {r w : ℕ} (store fetch : Bool) (hrw : r ≤ w) (hw : w ≤ r + 2 ^ A)
    (hstore : store = true → w < r + 2 ^ A) (hfetch : fetch = true → r < w) :
    fullNext (ptr A w) (ptr A r) store fetch = true ↔
      w + store.toNat = r + fetch.toNat + 2 ^ A := by
  have hlap := slot_eq_and_msb_ne_iff hrw hw
  rw [fullNext]
  cases store <;> cases fetch <;> simp
  · simpa using hlap
  · omega
  · rw [slot_ptr_eq_iff (by omega) (hstore rfl)]
    omega
  · have hlt := hstore rfl
    have hne : ¬ (slot (ptr A w) = slot (ptr A r) ∧ (ptr A w).msb ≠ (ptr A r).msb) := by
      rw [hlap]; omega
    constructor
    · exact fun h => absurd (by simpa using h) hne
    · omega

theorem emptyNext_ptr {r p : ℕ} (accept fetch : Bool) (hrp : r ≤ p) (hp : p ≤ r + 2 ^ A)
    (hfetch : fetch = true → r < p) :
    emptyNext (ptr A p) (ptr A r) accept fetch = true ↔
      accept = false ∧ p = r + fetch.toNat := by
  have heq := ptr_eq_iff hrp hp
  rw [emptyNext]
  cases accept <;> cases fetch <;> simp
  · exact heq
  · have hlt := hfetch rfl
    rw [@eq_comm _ (slot (ptr A (r + 1))), slot_ptr_eq_iff hlt (by omega)]
    omega
  · have hlt := hfetch rfl
    rw [heq]
    omega

/-! ## Memory contents -/

/-- The memory holds the words of the stream from index `lo` on, each in its slot. -/
def Holds (mem : BitVec A → α) (words : List α) (lo : ℕ) : Prop :=
  words.length ≤ lo + 2 ^ A ∧
    ∀ n (h : n < words.length), lo ≤ n → mem (slot (ptr A n)) = words[n]

theorem Holds.length_le {mem : BitVec A → α} {words : List α} {lo : ℕ}
    (h : Holds mem words lo) : words.length ≤ lo + 2 ^ A := h.1

theorem Holds.read {mem : BitVec A → α} {words : List α} {lo n : ℕ}
    (h : Holds mem words lo) (hlo : lo ≤ n) (hn : n < words.length) :
    mem (slot (ptr A n)) = words[n] := h.2 n hn hlo

theorem Holds.mono {mem : BitVec A → α} {words : List α} {lo lo' : ℕ}
    (h : Holds mem words lo) (hlo : lo ≤ lo') : Holds mem words lo' :=
  ⟨by have := h.1; omega, fun n hn hn' => h.2 n hn (hlo.trans hn')⟩

theorem holds_nil (mem : BitVec A → α) (lo : ℕ) : Holds mem [] lo :=
  ⟨by simp, by simp⟩

/-- Dropping the newest words leaves the older ones in place. -/
theorem Holds.take {mem : BitVec A → α} {words : List α} {lo : ℕ}
    (h : Holds mem words lo) (n : ℕ) : Holds mem (words.take n) lo := by
  refine ⟨(by simp : (words.take n).length ≤ words.length).trans h.1, ?_⟩
  intro k hk hlo
  rw [List.getElem_take]
  exact h.read hlo (by simp at hk; omega)

/-- A word stored at the write pointer extends the stream; it takes the slot of the
word a lap earlier, so that word must no longer be needed. -/
theorem Holds.store {mem : BitVec A → α} {words : List α} {lo lo' : ℕ}
    (h : Holds mem words lo) (x : α) (hlo : lo ≤ lo')
    (hroom : words.length + 1 ≤ lo' + 2 ^ A) :
    Holds (Function.update mem (slot (ptr A words.length)) x) (words ++ [x]) lo' := by
  refine ⟨by simpa using hroom, ?_⟩
  intro n hn hn'
  by_cases hlast : n = words.length
  · subst hlast
    simp
  · have hlt : n < words.length := by simp at hn; omega
    have hne : slot (ptr A n) ≠ slot (ptr A words.length) := by
      intro heq
      rcases (slot_ptr_eq_iff hlt.le (by omega)).mp heq.symm with h' | h' <;> omega
    rw [Function.update_of_ne hne, List.getElem_append_left hlt]
    exact h.read (hlo.trans hn') hlt

/-- The `n` words from a pointer on. -/
def window (mem : BitVec A → α) (p : BitVec (A + 1)) (n : ℕ) : List α :=
  (List.range n).map fun k => mem (slot (p + BitVec.ofNat (A + 1) k))

@[simp] theorem length_window (mem : BitVec A → α) (p : BitVec (A + 1)) (n : ℕ) :
    (window mem p n).length = n := by
  simp [window]

/-- The words between two pointers are the stream from the first pointer's index on. -/
theorem Holds.window_eq {mem : BitVec A → α} {words : List α} {lo r : ℕ}
    (h : Holds mem words lo) (hlo : lo ≤ r) (hr : r ≤ words.length) :
    window mem (ptr A r) (ptr A words.length - ptr A r).toNat = words.drop r := by
  rw [toNat_ptr_sub hr (by have := h.1; omega)]
  apply List.ext_getElem
  · simp
  · intro k hk hk'
    have hkr : r + k < words.length := by simp at hk'; omega
    simpa [window, ptr_add] using h.read (by omega) hkr

end MiscVerilogCores.RingMemory
