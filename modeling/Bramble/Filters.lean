import Bramble.CanId

/-!
# Receive filters (`canlinux.c`, `canservices.c`, `canbus.c`)

A device is to receive the messages for its own address and for the broadcast address.  `can_open`
gives the kernel one filter for each; `canservices_init` writes one filter bank of the CAN
controller, whose registers hold an id three bits up, above the flags of the frame.

* `canOpen`, `canservicesInit`   what the two install;
* `canbusFilterSet_accepts`      a bank in mask mode is a filter on the id;
* `filters_right_iff`            a device receives exactly what is addressed to it, unless it is a
                                 control processor and the message a broadcast.
-/

namespace Bramble

/-! ## Linux -/

/-- `valid_linux_address` -/
def validLinuxAddress (addr : Int) : Bool :=
  addr == canmsgAddrManagement ||
    ((canmsgAddrCompute : Int) ≤ addr && addr ≤ (canmsgAddrCompute ||| 0x0f : Nat))

/-- the filters that `can_open` installs; `none` if it fails -/
def canOpen (myaddr : Int) : Option (List CanFilter) :=
  if validLinuxAddress myaddr then
    some
      [{ canId := word myaddr.toNat <<< canmsgDstShift, canMask := canmsgDstMask },
        { canId := word canmsgAddrBroadcast <<< canmsgDstShift, canMask := canmsgDstMask }]
  else none

/-! ## the firmware -/

/-- `address_get`, from the levels of the five pins -/
def addressGet (gpio : Fin 5 → Bool) : UInt8 :=
  let val : UInt8 := 0
  let val := if gpio 0 then val ||| 1 else val
  let val := if gpio 1 then val ||| 2 else val
  let val := if gpio 2 then val ||| 4 else val
  let val := if gpio 3 then val ||| 8 else val
  if gpio 4 then val ||| 16 else val

/-- a filter bank of the CAN controller in 32-bit mask mode -/
structure FilterBank where
  nr : UInt32
  id : UInt32
  mask : UInt32
  fifo : UInt32
  enable : Bool

/-- `canbus_filter_set` -/
def canbusFilterSet (nr id mask : UInt32) : FilterBank := ⟨nr, id <<< 3, mask <<< 3, 0, true⟩

/-- `srcaddr` and the filter banks after `canservices_init` -/
def canservicesInit (gpio : Fin 5 → Bool) : UInt8 × List FilterBank :=
  let srcaddr := addressGet gpio ||| UInt8.ofNat canmsgAddrControl
  (srcaddr, [canbusFilterSet 0 (word srcaddr.toNat <<< canmsgDstShift) canmsgDstMask])

/-- what the controller compares with a bank: the id, IDE and RTR -/
def frameRegister (id : UInt32) (rtr : Bool) : UInt32 :=
  id <<< 3 ||| (4 ||| if rtr then 2 else 0)

def FilterBank.accepts (b : FilterBank) (id : UInt32) (rtr : Bool) : Prop :=
  b.enable = true ∧ frameRegister id rtr &&& b.mask = b.id &&& b.mask

/-- **A bank in mask mode is a filter on the id.** -/
theorem canbusFilterSet_accepts (nr fid : UInt32) {mask : UInt32} (hmask : mask.toNat < 2^29)
    (id : UInt32) (rtr : Bool) :
    (canbusFilterSet nr fid mask).accepts id rtr ↔ CanFilter.accepts ⟨fid, mask⟩ id := by
  have hm : (mask <<< 3).toNat = mask.toNat <<< 3 := by
    rw [UInt32.toNat_shiftLeft]
    show mask.toNat <<< 3 % 2^32 = _
    rw [Nat.shiftLeft_eq]
    omega
  -- of what is shifted up only the lowest 29 bits stay
  have hup (x : UInt32) : (x <<< 3).toNat >>> 3 = x.toNat % 2^29 := by
    rw [UInt32.toNat_shiftLeft]
    show (x.toNat <<< 3 % 2^32) >>> 3 = _
    rw [Nat.shiftLeft_eq, Nat.shiftRight_eq_div_pow]
    omega
  have hand (x : UInt32) : x.toNat % 2^29 &&& mask.toNat = (x &&& mask).toNat := by
    have hlt : x.toNat &&& mask.toNat < 2^29 := Nat.and_lt_two_pow _ hmask
    rw [UInt32.toNat_and, ← Nat.mod_eq_of_lt hlt, Nat.and_mod_two_pow, Nat.mod_eq_of_lt hmask]
  have hflags : (4 ||| if rtr then 2 else 0 : UInt32).toNat >>> 3 = 0 := by cases rtr <;> decide
  have hframe : (frameRegister id rtr &&& mask <<< 3).toNat = (id &&& mask).toNat <<< 3 := by
    rw [UInt32.toNat_and, hm, and_shiftLeft, frameRegister, UInt32.toNat_or,
      Nat.shiftRight_or_distrib, hup, hflags, Nat.or_zero, hand]
  have hbank : (fid <<< 3 &&& mask <<< 3).toNat = (fid &&& mask).toNat <<< 3 := by
    rw [UInt32.toNat_and, hm, and_shiftLeft, hup, hand]
  show true = true ∧ frameRegister id rtr &&& mask <<< 3 = fid <<< 3 &&& mask <<< 3 ↔
    id &&& mask = fid &&& mask
  rw [and_iff_right rfl, ← UInt32.toNat_inj, ← UInt32.toNat_inj, hframe, hbank, Nat.shiftLeft_eq,
    Nat.shiftLeft_eq, Nat.mul_left_inj (by decide)]

theorem canservicesInit_accepts (gpio : Fin 5 → Bool) {addr : Addr}
    (ha : (canservicesInit gpio).1.toNat = addr.val) (m0 : CanMsg) (id : UInt32) (rtr : Bool) :
    (∃ b ∈ (canservicesInit gpio).2, b.accepts id rtr) ↔ (idDecode m0 id).dst = addr := by
  show (∃ b ∈ [canbusFilterSet 0 (word (canservicesInit gpio).1.toNat <<< canmsgDstShift)
    canmsgDstMask], b.accepts id rtr) ↔ _
  simp only [List.mem_singleton, exists_eq_left]
  rw [canbusFilterSet_accepts _ _ (by decide), ha]
  exact dstFilter_accepts m0 addr id

/-! ## what the devices let through -/

/-- a message to the device with address `addr`, or to all -/
def IsFor (addr dst : Addr) : Prop := dst = addr ∨ dst.val = canmsgAddrBroadcast

/-- the filters of a device with address `addr` let an id through exactly if it carries a message for
the device -/
structure FiltersRight (addr : Addr) (id : UInt32) : Prop where
  linux : ∀ fs, canOpen addr.val = some fs → ∀ (fr : CanFrame) (msg : CanMsg),
    fr.canId &&& canEffMask = id → canRecv canFrameSize fr = .ok msg →
    ((∃ f ∈ fs, f.accepts fr.canId) ↔ IsFor addr msg.dst)
  firmware : ∀ gpio, (canservicesInit gpio).1.toNat = addr.val → ∀ (m0 : CanMsg) (rtr : Bool),
    (∃ b ∈ (canservicesInit gpio).2, b.accepts id rtr) ↔ IsFor addr (idDecode m0 id).dst

/-- the address of a control processor -/
def IsControl (addr : Addr) : Prop :=
  canmsgAddrControl ≤ addr.val ∧ addr.val ≤ canmsgAddrControl ||| 0x0f

instance (addr : Addr) : Decidable (IsControl addr) := inferInstanceAs (Decidable (_ ∧ _))

/-- the flags of a frame are outside the window -/
theorem dst_effMask (m0 : CanMsg) (id : UInt32) :
    (idDecode m0 (id &&& canEffMask)).dst = (idDecode m0 id).dst := by
  rw [← dst_agree m0, UInt32.and_assoc]
  rfl

theorem canRecv_dst (m0 : CanMsg) {fr : CanFrame} {msg : CanMsg}
    (h : canRecv canFrameSize fr = .ok msg) : msg.dst = (idDecode m0 fr.canId).dst := by
  have hok := h
  unfold canRecv at hok
  rw [if_neg (by decide)] at hok
  split_ifs at hok with hlen hflag
  rw [canRecv_eff m0 hflag (UInt8.not_lt.mp (not_or.mp hlen).2)] at h
  cases h
  exact dst_effMask m0 fr.canId

theorem canOpen_accepts {addr : Addr} {fs : List CanFilter} (h : canOpen addr.val = some fs)
    (m0 : CanMsg) (id : UInt32) :
    (∃ f ∈ fs, f.accepts id) ↔ IsFor addr (idDecode m0 id).dst := by
  obtain ⟨_, hfs⟩ := Option.ite_none_right_eq_some.mp h
  cases hfs
  have hbroadcast : (dstFilter 0x0f).accepts id ↔ (idDecode m0 id).dst.val = canmsgAddrBroadcast := by
    rw [dstFilter_accepts m0, Fin.ext_iff]
    rfl
  simp only [List.exists_mem_cons_iff, List.mem_singleton, exists_eq_left]
  exact or_congr (dstFilter_accepts m0 addr id) hbroadcast

/-- `canservices_init` takes the address of a control processor. -/
theorem canservicesInit_control (gpio : Fin 5 → Bool) :
    0x10 ≤ (canservicesInit gpio).1.toNat ∧ (canservicesInit gpio).1.toNat ≤ 0x1f := by
  revert gpio
  decide

theorem exists_gpio {addr : Addr} (h : IsControl addr) :
    ∃ gpio, (canservicesInit gpio).1.toNat = addr.val := by
  have hall : ∀ a : Addr, 0x10 ≤ a.val → a.val ≤ 0x1f →
      (canservicesInit fun i => a.val.testBit i).1.toNat = a.val := by decide
  exact ⟨_, hall addr h.1 h.2⟩

/-- A control processor has no filter for broadcasts. -/
theorem control_misses {addr : Addr} (hcontrol : IsControl addr) {id : UInt32}
    (hdst : (idDecode CanMsg.zero id).dst.val = canmsgAddrBroadcast) : ¬ FiltersRight addr id := by
  intro h
  obtain ⟨gpio, hgpio⟩ := exists_gpio hcontrol
  have haccepts := (h.firmware gpio hgpio CanMsg.zero false).mpr (.inr hdst)
  rw [canservicesInit_accepts gpio hgpio CanMsg.zero] at haccepts
  rw [haccepts] at hdst
  have hlow : canmsgAddrControl ≤ canmsgAddrBroadcast := hdst ▸ hcontrol.1
  exact absurd hlow (by decide)

/-- **Which devices receive what is addressed to them.**  The filters are right for every id that is
no broadcast, and for broadcasts to all devices but the control processors. -/
theorem filters_right_iff (addr : Addr) (id : UInt32) :
    FiltersRight addr id ↔
      (IsControl addr → (idDecode CanMsg.zero id).dst.val ≠ canmsgAddrBroadcast) := by
  constructor
  · intro h hcontrol hdst
    exact control_misses hcontrol hdst h
  · intro h
    constructor
    · intro fs hfs fr msg _ hrecv
      rw [canOpen_accepts hfs CanMsg.zero, canRecv_dst CanMsg.zero hrecv]
    · intro gpio hgpio m0 rtr
      rw [canservicesInit_accepts gpio hgpio m0]
      have hcontrol : IsControl addr := by
        rw [IsControl, ← hgpio]
        exact canservicesInit_control gpio
      exact (or_iff_left (h hcontrol)).symm

/-- a signal from a compute element to all devices -/
def signalToAll : CanMsg := { CanMsg.zero with dst := 0x0f, src := 0x21, type := .sig }

/-- **The control processor of slot 3 does not receive a broadcast.** -/
theorem filters_right_fails :
    ¬ ∀ (addr : Addr) (id : UInt32), id.toNat < 2^29 → FiltersRight addr id := by
  intro h
  have hright := h 0x13 (idEncode signalToAll) (idEncode_lt signalToAll)
  exact control_misses (by decide) (by decide) hright

end Bramble
