import Mathlib.Data.Nat.Log
import MiscVerilogCores.Model.ControlPipe

/-! # Descriptors

Where the descriptors lie in the ROM, and the packets in which they are sent. -/

namespace MiscVerilogCores.CtlPipe0

/-- The descriptors that a host may ask for. -/
inductive Descriptor where
  | device | config | string (n : Fin 4)
deriving DecidableEq

namespace Descriptor

/-- `wValue` of the request: the type, and the index. -/
def value : Descriptor → BitVec 16
  | device => 0x0100
  | config => 0x0200
  | string 0 => 0x0300
  | string 1 => 0x0301
  | string 2 => 0x0302
  | string 3 => 0x0303

section Rom

variable (p : Params)

def bytes : Descriptor → List (BitVec 8)
  | device => p.deviceDesc
  | config => p.configDesc
  | string 0 => strDesc
  | string 1 => descString p.manufacturer
  | string 2 => descString p.product
  | string 3 => descString p.serial

def start : Descriptor → ℕ
  | device => 0
  | config => descConfigStart p
  | string 0 => descStart0 p
  | string 1 => descStart1 p
  | string 2 => descStart2 p
  | string 3 => descStart3 p

/-- The device has the descriptor: that of the device and of the configuration always, and strings if
one is given. -/
structure Has (d : Descriptor) : Prop where
  device : p.deviceDesc ≠ []
  config : p.configDesc ≠ []
  string : ∀ n, d = .string n → hasStrings p = true

end Rom

variable {p : Params} {d : Descriptor}

@[simp] theorem length_descString (str : List (BitVec 8)) :
    (descString str).length = 2 + 2 * str.length := by
  have hflat : ∀ z : BitVec 8, (str.flatMap fun c => [c, z]).length = 2 * str.length := by
    intro z
    induction str with
    | nil => rfl
    | cons c str ih =>
        rw [List.flatMap_cons, List.length_append, ih, List.length_cons]
        simp only [List.length_cons, List.length_nil]
        omega
  rw [descString, List.length_append, hflat]
  rfl

theorem Has.bytes_ne_nil (h : d.Has p) : d.bytes p ≠ [] := by
  match d with
  | .device => exact h.device
  | .config => exact h.config
  | .string 0 => simp [bytes, strDesc]
  | .string 1 | .string 2 | .string 3 => simp [bytes, descString]

/-- The request is decoded to the place of the descriptor. -/
theorem startAddr_eq (h : d.Has p) {i : Inputs} (hvalue : i.reqValue = d.value)
    (hargs : i.reqArgs = 0x06) : startAddr (p := p) i = d.start p := by
  rw [startAddr, hvalue, hargs]
  match d with
  | .device | .config => rfl
  | .string 0 | .string 1 | .string 2 | .string 3 =>
      simp only [h.string _ rfl]
      rfl

/-- What lies behind the descriptor of the configuration. -/
def romTail (p : Params) : List (BitVec 8) :=
  (if hasStrings p then
    strDesc ++ descString p.manufacturer ++ descString p.product ++ descString p.serial
  else []) ++
    [0x01, 0x00, 0x00, 0x00, 0x00, 0x00]

theorem usbDesc_eq (p : Params) :
    usbDesc p = p.deviceDesc ++ (p.configDesc ++ romTail p) := by
  rw [usbDesc, romTail, List.append_assoc, List.append_assoc]

/-- The bytes of a descriptor lie in the ROM one behind the other. -/
theorem usbDesc_split (h : d.Has p) :
    ∃ front back, usbDesc p = front ++ (d.bytes p ++ back) ∧ front.length = d.start p := by
  rw [usbDesc_eq]
  match d with
  | .device => exact ⟨[], p.configDesc ++ romTail p, rfl, rfl⟩
  | .config => exact ⟨p.deviceDesc, romTail p, rfl, rfl⟩
  | .string n =>
      let tail : List (BitVec 8) := [0x01, 0x00, 0x00, 0x00, 0x00, 0x00]
      let front := p.deviceDesc ++ p.configDesc
      have hfront : front.length = descStart0 p := List.length_append
      have htail : romTail p = strDesc ++ (descString p.manufacturer ++ (descString p.product ++
          (descString p.serial ++ tail))) := by
        rw [romTail, if_pos (h.string n rfl)]
        simp only [List.append_assoc]
        rfl
      rw [htail, ← List.append_assoc]
      match n with
      | 0 => exact ⟨front, _, rfl, hfront⟩
      | 1 =>
          refine ⟨front ++ strDesc, descString p.product ++ (descString p.serial ++ tail),
            by simp [front, bytes], ?_⟩
          rw [List.length_append, hfront]
          rfl
      | 2 =>
          refine ⟨front ++ strDesc ++ descString p.manufacturer, descString p.serial ++ tail,
            by simp [front, bytes], ?_⟩
          rw [List.length_append, List.length_append, hfront, length_descString]
          rfl
      | 3 =>
          refine ⟨front ++ strDesc ++ descString p.manufacturer ++ descString p.product, tail,
            by simp [front, bytes], ?_⟩
          rw [List.length_append, List.length_append, List.length_append, hfront, length_descString,
            length_descString]
          rfl

/-- What the ROM puts out at the address of a byte. -/
theorem getD_usbDesc (h : d.Has p) {k : ℕ} (hk : k < (d.bytes p).length) (undef : BitVec 8) :
    (usbDesc p).getD (d.start p + k) undef = (d.bytes p).get ⟨k, hk⟩ := by
  obtain ⟨front, back, hsplit, hlen⟩ := usbDesc_split h
  rw [hsplit, ← hlen, List.getD_eq_getElem?_getD, List.getElem?_append_right (Nat.le_add_right _ _),
    Nat.add_sub_cancel_left, List.getElem?_append_left hk, List.getElem?_eq_getElem hk]
  rfl

/-- The address counter reaches each byte. -/
theorem toNat_addr (h : d.Has p) {k : ℕ} (hk : k < (d.bytes p).length) :
    (BitVec.ofNat (abits p) (d.start p + k)).toNat = d.start p + k := by
  obtain ⟨front, back, hsplit, hlen⟩ := usbDesc_split h
  have hlt : d.start p + k < (usbDesc p).length := by
    rw [hsplit, ← hlen]
    simp only [List.length_append]
    omega
  rw [BitVec.toNat_ofNat, Nat.mod_eq_of_lt]
  exact hlt.trans_le (Nat.le_pow_clog Nat.one_lt_two _)

/-- The end markers of the ROM. -/
theorem descTlast_eq (h : d.Has p) {k : ℕ} (hk : k < (d.bytes p).length) :
    descTlast p (d.start p + k) = decide (k + 1 = (d.bytes p).length) := by
  have hdev := List.length_pos_iff.mpr h.device
  have hcfg := List.length_pos_iff.mpr h.config
  have hstr : strDesc.length = 4 := rfl
  rw [descTlast, decide_eq_decide, descEnds]
  simp only [List.mem_cons, List.not_mem_nil, or_false, descStatusStart, descStart3, descStart2,
    descStart1, descStart0, hstr]
  match d with
  | .device =>
      simp only [bytes, start] at hk ⊢
      omega
  | .config =>
      simp only [bytes, start, descConfigStart] at hk ⊢
      omega
  | .string 0 =>
      simp only [bytes, start, descStart0, hstr] at hk ⊢
      omega
  | .string 1 | .string 2 | .string 3 =>
      simp only [bytes, start, length_descString, descStart3, descStart2, descStart1, descStart0,
        hstr] at hk ⊢
      omega

end Descriptor

/-! ## Packets -/

/-- A packet with these bytes, as words of the `m_` port: `tlast` on the last of them only. -/
def packet (bs : List (BitVec 8)) : List (Bool × BitVec 9) :=
  bs.mapIdx fun k b => (decide (k + 1 = bs.length), BitVec.ofBool true ++ b)

@[simp] theorem length_packet (bs : List (BitVec 8)) : (packet bs).length = bs.length := by
  simp [packet]

/-- The words from the `k`-th on. -/
theorem drop_packet {bs : List (BitVec 8)} {k : ℕ} (hk : k < bs.length) :
    (packet bs).drop k =
      (decide (k + 1 = bs.length), BitVec.ofBool true ++ bs.get ⟨k, hk⟩) ::
        (packet bs).drop (k + 1) := by
  have hlt : k < (packet bs).length := by simpa using hk
  rw [List.drop_eq_getElem_cons hlt]
  simp [packet]

end MiscVerilogCores.CtlPipe0
