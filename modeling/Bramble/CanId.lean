import Bramble.CanMsg

/-!
# The 29-bit id: two encoders, two decoders

`id_encode` and `id_decode` of the firmware (`canbus.c`), `can_send` and `can_recv` of the Linux
library (`canlinux.c`), and the filter windows of `canmsg.h`.  Each writes its own shifts and
masks; all of them describe the layout `CanMsg.fields`.

* `idEncode_toNat`     the encoder packs the fields;
* `fields_idDecode`    the decoder unpacks them;
* `codecs_agree`       encoders and decoders are inverse to each other, and the windows cut out
                       `dst` and `src`.
-/

namespace Bramble

/-! ## the message type as a number -/

/-- the `CANMSG_TYPE_*` numbers -/
def MsgType.code : MsgType → Fin 8
  | .ro => 0
  | .wo => 1
  | .wna => 2
  | .dat => 3
  | .ack => 4
  | .unassigned => 5
  | .nak => 6
  | .sig => 7

def MsgType.ofCode : Fin 8 → MsgType
  | 0 => .ro
  | 1 => .wo
  | 2 => .wna
  | 3 => .dat
  | 4 => .ack
  | 5 => .unassigned
  | 6 => .nak
  | 7 => .sig

theorem MsgType.ofCode_code (t : MsgType) : ofCode t.code = t := by cases t <;> rfl

theorem MsgType.code_ofCode (c : Fin 8) : (ofCode c).code = c := by
  fin_cases c <;> rfl

/-! ## the firmware -/

/-- a bit-field that is read: promoted to a machine word -/
def word (v : Nat) : UInt32 := UInt32.ofNat v

/-- `id_encode` -/
def idEncode (msg : CanMsg) : UInt32 :=
  word msg.seq.val
    ||| word msg.eot.toNat <<< 4
    ||| word msg.object.toNat <<< 5
    ||| word msg.type.code.val <<< 13
    ||| word msg.src.val <<< 16
    ||| word msg.dst.val <<< 22
    ||| word msg.pri.val <<< 28

/-- `id_decode`; a bit-field keeps the low bits of what is stored into it -/
def idDecode (msg : CanMsg) (id : UInt32) : CanMsg :=
  { msg with
    seq := Fin.ofNat 16 (id &&& 0xf).toNat
    eot := ((id >>> 4) &&& 1).toNat % 2 = 1
    object := UInt8.ofNat ((id >>> 5) &&& 0xff).toNat
    type := .ofCode (Fin.ofNat 8 ((id >>> 13) &&& 7).toNat)
    src := Fin.ofNat 64 ((id >>> 16) &&& 0x3f).toNat
    dst := Fin.ofNat 64 ((id >>> 22) &&& 0x3f).toNat
    pri := Fin.ofNat 2 ((id >>> 28) &&& 1).toNat }

/-! ## Linux -/

/-- `CAN_EFF_FLAG` -/
def canEffFlag : UInt32 := 0x80000000

/-- `CAN_EFF_MASK` -/
def canEffMask : UInt32 := 0x1fffffff

/-- `struct can_frame` -/
structure CanFrame where
  canId : UInt32
  canDlc : UInt8
  data : Vector UInt8 8
  deriving DecidableEq

/-- `sizeof (struct can_frame)` -/
def canFrameSize : Int := 16

/-- what a failing call leaves in `errno`: set by `read` or `write`, or `EPROTO` -/
inductive CanErr where
  | io | eproto
  deriving DecidableEq

/-- `memcpy (dst, src, len)` into 8 bytes -/
def memcpy8 (dst : Vector UInt8 8) (src : Payload) : Vector UInt8 8 :=
  Vector.ofFn fun i => src.bytes.getD i (dst.get i)

/-- The frame that `can_send` writes; `stale` is what its uninitialised data bytes hold. -/
def canSendFrame (stale : Vector UInt8 8) (msg : CanMsg) : CanFrame :=
  { canId :=
      word msg.seq.val
        ||| word msg.eot.toNat <<< 4
        ||| word msg.object.toNat <<< 5
        ||| word msg.type.code.val <<< 13
        ||| word msg.src.val <<< 16
        ||| word msg.dst.val <<< 22
        ||| word msg.pri.val <<< 28
        ||| canEffFlag
    canDlc := UInt8.ofNat msg.dlen
    data := memcpy8 stale msg.data }

/-- `can_send`; `write` is the number of bytes the socket takes -/
def canSend (write : CanFrame → Int) (stale : Vector UInt8 8) (msg : CanMsg) : Except CanErr Unit :=
  let n := write (canSendFrame stale msg)
  if n < 0 then .error .io
  else if n ≠ canFrameSize then .error .eproto
  else .ok ()

/-- `can_recv`, after `read` returned `n` and filled the frame -/
def canRecv (n : Int) (fr : CanFrame) : Except CanErr CanMsg :=
  if n < 0 then .error .io
  else if n ≠ canFrameSize ∨ fr.canDlc > 8 then .error .eproto
  else if fr.canId &&& canEffFlag = 0 then .error .eproto
  else
    let id := fr.canId &&& canEffMask
    .ok
      { seq := Fin.ofNat 16 (id &&& 0xf).toNat
        eot := ((id >>> 4) &&& 1).toNat % 2 = 1
        object := UInt8.ofNat ((id >>> 5) &&& 0xff).toNat
        type := .ofCode (Fin.ofNat 8 ((id >>> 13) &&& 7).toNat)
        src := Fin.ofNat 64 ((id >>> 16) &&& 0x3f).toNat
        dst := Fin.ofNat 64 ((id >>> 22) &&& 0x3f).toNat
        pri := Fin.ofNat 2 ((id >>> 28) &&& 1).toNat
        data := .ofList (fr.data.toList.take fr.canDlc.toNat) }

/-! ## the filter windows -/

/-- `CANMSG_DST_SHIFT` -/
def canmsgDstShift : UInt32 := 22

/-- `CANMSG_DST_MASK` -/
def canmsgDstMask : UInt32 := 0x3f <<< canmsgDstShift

/-- `CANMSG_SRC_SHIFT` -/
def canmsgSrcShift : UInt32 := 16

/-- `CANMSG_SRC_MASK` -/
def canmsgSrcMask : UInt32 := 0x3f <<< canmsgSrcShift

/-- `struct can_filter`: an id passes if it agrees with `canId` under the mask -/
structure CanFilter where
  canId : UInt32
  canMask : UInt32

def CanFilter.accepts (f : CanFilter) (id : UInt32) : Prop :=
  id &&& f.canMask = f.canId &&& f.canMask

instance (f : CanFilter) (id : UInt32) : Decidable (f.accepts id) :=
  inferInstanceAs (Decidable (_ = _))

/-- the filter for messages to `addr` (`can_open`, `canservices_init`, `cansnoop`) -/
def dstFilter (addr : Addr) : CanFilter :=
  { canId := word addr.val <<< canmsgDstShift, canMask := canmsgDstMask }

/-- the filter for messages from `addr` (`cansnoop`) -/
def srcFilter (addr : Addr) : CanFilter :=
  { canId := word addr.val <<< canmsgSrcShift, canMask := canmsgSrcMask }

/-- the console helper's filter for the messages of one peer -/
def peerFilter (dstaddr srcaddr : Addr) : CanFilter :=
  { canId := word dstaddr.val <<< canmsgSrcShift ||| word srcaddr.val <<< canmsgDstShift
    canMask := canmsgSrcMask ||| canmsgDstMask }

/-! ## one layout -/

/-- the layout of the id, lowest field first: widths and values -/
def CanMsg.fields (m : CanMsg) : List (Nat × Nat) :=
  [(4, m.seq.val), (1, m.eot.toNat), (8, m.object.toNat), (3, m.type.code.val), (6, m.src.val),
    (6, m.dst.val), (1, m.pri.val)]

def idWidths : List Nat := [4, 1, 8, 3, 6, 6, 1]

theorem CanMsg.fields_widths (m : CanMsg) : m.fields.map Prod.fst = idWidths := rfl

theorem CanMsg.fields_fit (m : CanMsg) : BitField.Fits m.fields := by
  intro f hf
  simp only [CanMsg.fields, List.mem_cons, List.not_mem_nil, or_false] at hf
  rcases hf with rfl | rfl | rfl | rfl | rfl | rfl | rfl
  · exact m.seq.isLt
  · exact Bool.toNat_lt m.eot
  · exact m.object.toNat_lt
  · exact m.type.code.isLt
  · exact m.src.isLt
  · exact m.dst.isLt
  · exact m.pri.isLt

/-- The fields determine the message up to its data. -/
theorem CanMsg.eq_of_fields {m m' : CanMsg} (hf : m.fields.map Prod.snd = m'.fields.map Prod.snd)
    (hd : m.data = m'.data) : m = m' := by
  obtain ⟨pri, dst, src, type, object, eot, seq, data⟩ := m
  obtain ⟨pri', dst', src', type', object', eot', seq', data'⟩ := m'
  simp only [CanMsg.fields, List.map_cons, List.map_nil, List.cons.injEq, and_true] at hf
  obtain ⟨h1, h2, h3, h4, h5, h6, h7⟩ := hf
  have ht : type = type' := by
    rw [← MsgType.ofCode_code type, Fin.ext h4, MsgType.ofCode_code]
  have he : eot = eot' := by
    cases eot <;> cases eot' <;> first | rfl | cases h2
  rw [Fin.ext h1, he, UInt8.toNat_inj.mp h3, ht, Fin.ext h5, Fin.ext h6, Fin.ext h7,
    show data = data' from hd]

theorem word_toNat {v : Nat} (h : v < 2^32) : (word v).toNat = v := by
  rw [word, UInt32.toNat_ofNat', Nat.mod_eq_of_lt h]

/-- A field of width `w` shifted to bit `k` stays within the word. -/
theorem word_shl {v w : Nat} {k : UInt32} (hv : v < 2^w) (hk : w + k.toNat ≤ 32)
    (hk32 : k.toNat < 32) : (word v <<< k).toNat = v <<< k.toNat := by
  have hle : (2 : Nat)^(w + k.toNat) ≤ 2^32 := Nat.pow_le_pow_right (by omega) hk
  have hlt : v <<< k.toNat < 2^32 := by
    rw [Nat.shiftLeft_eq]
    calc v * 2^k.toNat < 2^w * 2^k.toNat := Nat.mul_lt_mul_of_pos_right hv (Nat.two_pow_pos _)
      _ = 2^(w + k.toNat) := (Nat.pow_add _ _ _).symm
      _ ≤ 2^32 := hle
  have hv32 : v < 2^32 := by
    refine Nat.lt_of_lt_of_le hv (Nat.le_trans ?_ hle)
    exact Nat.pow_le_pow_right (by omega) (Nat.le_add_right _ _)
  rw [UInt32.toNat_shiftLeft, word_toNat hv32, Nat.mod_eq_of_lt hk32, Nat.mod_eq_of_lt hlt]

theorem idEncode_toNat (m : CanMsg) : (idEncode m).toNat = BitField.pack m.fields := by
  have hfit := m.fields_fit
  rw [← BitField.orInto_zero hfit]
  have hseq : (word m.seq.val).toNat = m.seq.val := word_toNat (by omega)
  have heot : (word m.eot.toNat <<< 4).toNat = m.eot.toNat <<< 4 :=
    word_shl (Bool.toNat_lt m.eot) (w := 1) (by decide) (by decide)
  have hobj : (word m.object.toNat <<< 5).toNat = m.object.toNat <<< 5 :=
    word_shl m.object.toNat_lt (by decide) (by decide)
  have htype : (word m.type.code.val <<< 13).toNat = m.type.code.val <<< 13 :=
    word_shl (w := 3) m.type.code.isLt (by decide) (by decide)
  have hsrc : (word m.src.val <<< 16).toNat = m.src.val <<< 16 :=
    word_shl (w := 6) m.src.isLt (by decide) (by decide)
  have hdst : (word m.dst.val <<< 22).toNat = m.dst.val <<< 22 :=
    word_shl (w := 6) m.dst.isLt (by decide) (by decide)
  have hpri : (word m.pri.val <<< 28).toNat = m.pri.val <<< 28 :=
    word_shl (w := 1) m.pri.isLt (by decide) (by decide)
  rw [idEncode, UInt32.toNat_or, UInt32.toNat_or, UInt32.toNat_or, UInt32.toNat_or,
    UInt32.toNat_or, UInt32.toNat_or, hseq, heot, hobj, htype, hsrc, hdst, hpri]
  show _ = 0 ||| m.seq.val <<< 0 ||| _ ||| _ ||| _ ||| _ ||| _ ||| _
  rw [Nat.shiftLeft_zero, Nat.zero_or]

/-- What a decoder shifts down and masks out is a field of the id, and it fits where it is stored. -/
theorem masked (id : UInt32) {k mask : UInt32} {w : Nat} (hk : k.toNat < 32)
    (hmask : mask.toNat = 2^w - 1) :
    ((id >>> k) &&& mask).toNat % 2^w = id.toNat >>> k.toNat &&& (2^w - 1) := by
  rw [UInt32.toNat_and, UInt32.toNat_shiftRight, Nat.mod_eq_of_lt hk, hmask,
    Nat.and_two_pow_sub_one_eq_mod, Nat.mod_mod]

theorem bit_toNat (n : Nat) : (decide (n % 2 = 1)).toNat = n % 2 := by
  obtain h | h := Nat.mod_two_eq_zero_or_one n
  · rw [h]; rfl
  · rw [h]; rfl

theorem idDecode_src (m : CanMsg) (id : UInt32) :
    (idDecode m id).src.val = id.toNat >>> 16 &&& (2^6 - 1) :=
  masked id (w := 6) (by decide) (by decide)

theorem idDecode_dst (m : CanMsg) (id : UInt32) :
    (idDecode m id).dst.val = id.toNat >>> 22 &&& (2^6 - 1) :=
  masked id (w := 6) (by decide) (by decide)

theorem fields_idDecode (m : CanMsg) (id : UInt32) :
    (idDecode m id).fields.map Prod.snd = BitField.unpack idWidths id.toNat := by
  have hunpack : BitField.unpack idWidths id.toNat = BitField.maskOut id.toNat 0 idWidths := by
    rw [BitField.maskOut_eq, Nat.shiftRight_zero]
  have hseq : (idDecode m id).seq.val = id.toNat >>> 0 &&& (2^4 - 1) := by
    calc (id &&& 0xf).toNat % 2^4 = ((id >>> 0) &&& 0xf).toNat % 2^4 := by
          rw [UInt32.shiftRight_zero]
      _ = _ := masked id (by decide) (by decide)
  have heot : (idDecode m id).eot.toNat = id.toNat >>> 4 &&& (2^1 - 1) := by
    show (decide (((id >>> 4) &&& 1).toNat % 2 = 1)).toNat = _
    rw [bit_toNat]
    exact masked id (w := 1) (by decide) (by decide)
  have hobj : (idDecode m id).object.toNat = id.toNat >>> 5 &&& (2^8 - 1) := by
    show (UInt8.ofNat ((id >>> 5) &&& 0xff).toNat).toNat = _
    rw [UInt8.toNat_ofNat']
    exact masked id (by decide) (by decide)
  have htype : (idDecode m id).type.code.val = id.toNat >>> 13 &&& (2^3 - 1) := by
    show (MsgType.ofCode (Fin.ofNat 8 ((id >>> 13) &&& 7).toNat)).code.val = _
    rw [MsgType.code_ofCode]
    exact masked id (w := 3) (by decide) (by decide)
  have hpri : (idDecode m id).pri.val = id.toNat >>> 28 &&& (2^1 - 1) :=
    masked id (w := 1) (by decide) (by decide)
  rw [hunpack]
  show [_, _, _, _, _, _, _] = [_, _, _, _, _, _, _]
  rw [hseq, heot, hobj, htype, idDecode_src, idDecode_dst, hpri]

theorem idEncode_lt (m : CanMsg) : (idEncode m).toNat < 2^29 := by
  rw [idEncode_toNat]
  exact BitField.pack_lt m.fields_fit

theorem idDecode_idEncode (m m0 : CanMsg) :
    idDecode m0 (idEncode m) = { m with data := m0.data } := by
  apply CanMsg.eq_of_fields
  · rw [fields_idDecode, idEncode_toNat, ← m.fields_widths, BitField.unpack_pack m.fields_fit]
    rfl
  · rfl

theorem idEncode_idDecode (m0 : CanMsg) {id : UInt32} (h : id.toNat < 2^29) :
    idEncode (idDecode m0 id) = id := by
  apply UInt32.toNat_inj.mp
  rw [idEncode_toNat]
  have hzip : (idDecode m0 id).fields = idWidths.zip (BitField.unpack idWidths id.toNat) := by
    rw [← fields_idDecode m0 id]
    rfl
  rw [hzip]
  exact BitField.pack_unpack h

/-! ## frames -/

theorem memcpy8_take (dst : Vector UInt8 8) (src : Payload) :
    (memcpy8 dst src).toList.take src.bytes.length = src.bytes := by
  have hle := src.len_le
  apply List.ext_getElem
  · rw [List.length_take, Vector.length_toList]
    omega
  · intro i h1 h2
    have hi : i < 8 := Nat.lt_of_lt_of_le h2 hle
    rw [List.getElem_take, Vector.getElem_toList]
    show (Vector.ofFn fun i : Fin 8 => src.bytes.getD i (dst.get i))[i] = _
    rw [Vector.getElem_ofFn, List.getD_eq_getElem _ _ h2]

theorem or_eff_mask {id : UInt32} (h : id.toNat < 2^29) : (id ||| canEffFlag) &&& canEffMask = id := by
  apply UInt32.toNat_inj.mp
  rw [UInt32.toNat_and, UInt32.toNat_or]
  show (id.toNat ||| 2^31) &&& (2^29 - 1) = id.toNat
  rw [Nat.and_two_pow_sub_one_eq_mod, Nat.or_mod_two_pow, Nat.mod_eq_of_lt h]
  exact Nat.or_zero _

theorem or_eff_flag (id : UInt32) : (id ||| canEffFlag) &&& canEffFlag ≠ 0 := by
  intro h
  have hbit : ((id ||| canEffFlag) &&& canEffFlag).toNat.testBit 31 = false := by
    rw [h]; rfl
  have hflag : canEffFlag.toNat.testBit 31 = true := by decide
  rw [UInt32.toNat_and, UInt32.toNat_or, Nat.testBit_and, Nat.testBit_or, hflag, Bool.or_true] at hbit
  cases hbit

/-- `can_recv` of an extended frame decodes as the firmware does. -/
theorem canRecv_eff (m0 : CanMsg) {fr : CanFrame} (hfr : fr.canId &&& canEffFlag ≠ 0)
    (hdlc : fr.canDlc ≤ 8) :
    canRecv canFrameSize fr = .ok { idDecode m0 (fr.canId &&& canEffMask) with
      data := .ofList (fr.data.toList.take fr.canDlc.toNat) } := by
  have hn : ¬ (canFrameSize ≠ canFrameSize ∨ fr.canDlc > 8) := by
    rw [not_or]
    exact ⟨not_not.mpr rfl, UInt8.not_lt.mpr hdlc⟩
  unfold canRecv
  rw [if_neg (by decide), if_neg hn, if_neg hfr]
  rfl

theorem canRecv_canSendFrame (stale : Vector UInt8 8) (m : CanMsg) :
    canRecv canFrameSize (canSendFrame stale m) = .ok m := by
  have hlen := m.data.len_le
  have hdlc : (UInt8.ofNat m.dlen).toNat = m.dlen := by
    rw [UInt8.toNat_ofNat', Nat.mod_eq_of_lt]
    exact Nat.lt_of_le_of_lt hlen (by decide)
  have hdata : Payload.ofList ((memcpy8 stale m.data).toList.take m.dlen) = m.data := by
    rw [show m.dlen = m.data.bytes.length from rfl, memcpy8_take]
    obtain ⟨bytes, hb⟩ := m.data
    simp only [Payload.ofList, List.take_of_length_le hb]
  have hle : (canSendFrame stale m).canDlc ≤ 8 := by
    apply UInt8.le_iff_toNat_le.mpr
    show (UInt8.ofNat m.dlen).toNat ≤ 8
    rw [hdlc]
    exact hlen
  have hid : (canSendFrame stale m).canId = idEncode m ||| canEffFlag := rfl
  rw [canRecv_eff m (or_eff_flag (idEncode m)) hle, hid, or_eff_mask (idEncode_lt m),
    idDecode_idEncode]
  show Except.ok { m with data := Payload.ofList (List.take (UInt8.ofNat m.dlen).toNat _) } = _
  rw [hdlc]
  show Except.ok { m with data := Payload.ofList ((memcpy8 stale m.data).toList.take m.dlen) } = _
  rw [hdata]

/-- `can_send` succeeds when the socket takes the whole frame. -/
theorem canSend_ok {write : CanFrame → Int} {stale : Vector UInt8 8} {m : CanMsg}
    (h : canSend write stale m = .ok ()) : write (canSendFrame stale m) = canFrameSize := by
  by_contra hn
  unfold canSend at h
  simp only [if_pos hn] at h
  by_cases hlt : write (canSendFrame stale m) < 0
  · rw [if_pos hlt] at h
    cases h
  · rw [if_neg hlt] at h
    cases h

/-- What `can_send` hands to the socket, `can_recv` reads back. -/
theorem canRecv_canSend {write : CanFrame → Int} {stale : Vector UInt8 8} {m : CanMsg}
    (h : canSend write stale m = .ok ()) :
    canRecv (write (canSendFrame stale m)) (canSendFrame stale m) = .ok m := by
  rw [canSend_ok h, canRecv_canSendFrame]

/-! ## filters -/

theorem and_shiftLeft (x n k : Nat) : x &&& n <<< k = (x >>> k &&& n) <<< k := by
  apply Nat.eq_of_testBit_eq
  intro i
  rw [Nat.testBit_and, Nat.testBit_shiftLeft, Nat.testBit_shiftLeft, Nat.testBit_and,
    Nat.testBit_shiftRight]
  by_cases hi : k ≤ i
  · rw [Nat.add_sub_cancel' hi, Bool.and_left_comm]
  · rw [decide_eq_false hi, Bool.false_and, Bool.false_and, Bool.and_false]

/-- What a window leaves of an id is the field, in its place. -/
theorem and_dstMask (m0 : CanMsg) (id : UInt32) :
    (id &&& canmsgDstMask).toNat = (idDecode m0 id).dst.val <<< 22 := by
  have hmask : canmsgDstMask.toNat = (2^6 - 1) <<< 22 := by decide
  rw [UInt32.toNat_and, hmask, and_shiftLeft, idDecode_dst]

theorem and_srcMask (m0 : CanMsg) (id : UInt32) :
    (id &&& canmsgSrcMask).toNat = (idDecode m0 id).src.val <<< 16 := by
  have hmask : canmsgSrcMask.toNat = (2^6 - 1) <<< 16 := by decide
  rw [UInt32.toNat_and, hmask, and_shiftLeft, idDecode_src]

theorem dst_window (m0 : CanMsg) (id : UInt32) :
    ((id &&& canmsgDstMask) >>> canmsgDstShift).toNat = (idDecode m0 id).dst.val := by
  rw [UInt32.toNat_shiftRight, and_dstMask m0]
  exact Nat.shiftLeft_shiftRight _ 22

theorem src_window (m0 : CanMsg) (id : UInt32) :
    ((id &&& canmsgSrcMask) >>> canmsgSrcShift).toNat = (idDecode m0 id).src.val := by
  rw [UInt32.toNat_shiftRight, and_srcMask m0]
  exact Nat.shiftLeft_shiftRight _ 16

/-- Ids agree in a window when they carry the same address there. -/
theorem dst_agree (m0 : CanMsg) (x y : UInt32) :
    x &&& canmsgDstMask = y &&& canmsgDstMask ↔ (idDecode m0 x).dst = (idDecode m0 y).dst := by
  rw [← UInt32.toNat_inj, and_dstMask m0, and_dstMask m0, Nat.shiftLeft_eq, Nat.shiftLeft_eq,
    Nat.mul_left_inj (by decide), Fin.val_inj]

theorem src_agree (m0 : CanMsg) (x y : UInt32) :
    x &&& canmsgSrcMask = y &&& canmsgSrcMask ↔ (idDecode m0 x).src = (idDecode m0 y).src := by
  rw [← UInt32.toNat_inj, and_srcMask m0, and_srcMask m0, Nat.shiftLeft_eq, Nat.shiftLeft_eq,
    Nat.mul_left_inj (by decide), Fin.val_inj]

/-- the addresses alone, as the filters shift them into place -/
theorem idEncode_addrs (dst src : Addr) :
    idEncode { CanMsg.zero with dst := dst, src := src } =
      word src.val <<< 16 ||| word dst.val <<< 22 := by
  have h0 : word 0 = 0 := rfl
  show word 0 ||| word 0 <<< 4 ||| word 0 <<< 5 ||| word 0 <<< 13 ||| word src.val <<< 16
    ||| word dst.val <<< 22 ||| word 0 <<< 28 = _
  simp only [h0, UInt32.zero_shiftLeft, UInt32.zero_or, UInt32.or_zero]

theorem dstFilter_accepts (m0 : CanMsg) (addr : Addr) (id : UInt32) :
    (dstFilter addr).accepts id ↔ (idDecode m0 id).dst = addr := by
  have hid : (dstFilter addr).canId = idEncode { CanMsg.zero with dst := addr, src := 0 } := by
    have h0 : word (0 : Addr).val = 0 := rfl
    rw [idEncode_addrs, h0, UInt32.zero_shiftLeft, UInt32.zero_or]
    rfl
  show id &&& canmsgDstMask = (dstFilter addr).canId &&& canmsgDstMask ↔ _
  rw [dst_agree m0, hid, idDecode_idEncode]

theorem srcFilter_accepts (m0 : CanMsg) (addr : Addr) (id : UInt32) :
    (srcFilter addr).accepts id ↔ (idDecode m0 id).src = addr := by
  have hid : (srcFilter addr).canId = idEncode { CanMsg.zero with dst := 0, src := addr } := by
    have h0 : word (0 : Addr).val = 0 := rfl
    rw [idEncode_addrs, h0, UInt32.zero_shiftLeft, UInt32.or_zero]
    rfl
  show id &&& canmsgSrcMask = (srcFilter addr).canId &&& canmsgSrcMask ↔ _
  rw [src_agree m0, hid, idDecode_idEncode]

/-- Agreeing under two masks at once is agreeing under each. -/
theorem and_or_agree (x y m n : UInt32) :
    x &&& (m ||| n) = y &&& (m ||| n) ↔ x &&& m = y &&& m ∧ x &&& n = y &&& n := by
  simp only [← UInt32.toNat_inj, UInt32.toNat_and, UInt32.toNat_or]
  constructor
  · intro h
    have hbit : ∀ i, (x.toNat.testBit i && (m.toNat.testBit i || n.toNat.testBit i)) =
        (y.toNat.testBit i && (m.toNat.testBit i || n.toNat.testBit i)) := by
      intro i
      rw [← Nat.testBit_or, ← Nat.testBit_and, ← Nat.testBit_and, h]
    constructor
    · apply Nat.eq_of_testBit_eq
      intro i
      have := hbit i
      rw [Nat.testBit_and, Nat.testBit_and]
      grind
    · apply Nat.eq_of_testBit_eq
      intro i
      have := hbit i
      rw [Nat.testBit_and, Nat.testBit_and]
      grind
  · intro h
    rw [Nat.and_or_distrib_left, Nat.and_or_distrib_left, h.1, h.2]

theorem peerFilter_accepts (m0 : CanMsg) (dstaddr srcaddr : Addr) (id : UInt32) :
    (peerFilter dstaddr srcaddr).accepts id ↔
      (idDecode m0 id).src = dstaddr ∧ (idDecode m0 id).dst = srcaddr := by
  have hid : (peerFilter dstaddr srcaddr).canId =
      idEncode { CanMsg.zero with dst := srcaddr, src := dstaddr } :=
    (idEncode_addrs srcaddr dstaddr).symm
  show id &&& (canmsgSrcMask ||| canmsgDstMask) = (peerFilter dstaddr srcaddr).canId &&&
    (canmsgSrcMask ||| canmsgDstMask) ↔ _
  rw [and_or_agree, src_agree m0, dst_agree m0, hid, idDecode_idEncode]

/-! ## both ways -/

/-- **The codecs are inverse and agree.**  Whatever message is encoded, both encoders build the same
29-bit id, and both decoders give the message back (the firmware's leaves the data alone, which
`can_receive` has filled); whatever id is decoded, both encoders give it back, and the windows and
filters see its two addresses. -/
theorem codecs_agree :
    (∀ (m : CanMsg) (stale : Vector UInt8 8),
      (idEncode m).toNat < 2^29 ∧
      (canSendFrame stale m).canId &&& canEffMask = idEncode m ∧
      (∀ m0 : CanMsg, idDecode m0 (idEncode m) = { m with data := m0.data }) ∧
      canRecv canFrameSize (canSendFrame stale m) = .ok m) ∧
    (∀ id : UInt32, id.toNat < 2^29 → ∀ m0 : CanMsg,
      idEncode (idDecode m0 id) = id ∧
      (∀ stale, (canSendFrame stale (idDecode m0 id)).canId &&& canEffMask = id) ∧
      (∀ fr : CanFrame, fr.canId &&& canEffFlag ≠ 0 → fr.canId &&& canEffMask = id →
        fr.canDlc ≤ 8 → ∃ m, canRecv canFrameSize fr = .ok m ∧
          m = { idDecode m0 id with data := m.data } ∧
          m.data.bytes = fr.data.toList.take fr.canDlc.toNat ∧
          idEncode m = id ∧ ∀ stale, (canSendFrame stale m).canId &&& canEffMask = id) ∧
      ((id &&& canmsgDstMask) >>> canmsgDstShift).toNat = (idDecode m0 id).dst.val ∧
      ((id &&& canmsgSrcMask) >>> canmsgSrcShift).toNat = (idDecode m0 id).src.val ∧
      (∀ a, (dstFilter a).accepts id ↔ (idDecode m0 id).dst = a) ∧
      (∀ a, (srcFilter a).accepts id ↔ (idDecode m0 id).src = a) ∧
      ∀ a b, (peerFilter a b).accepts id ↔ (idDecode m0 id).src = a ∧ (idDecode m0 id).dst = b) := by
  have hsend : ∀ (m : CanMsg) (stale : Vector UInt8 8),
      (canSendFrame stale m).canId &&& canEffMask = idEncode m :=
    fun m _ => or_eff_mask (idEncode_lt m)
  constructor
  · intro m stale
    exact ⟨idEncode_lt m, hsend m stale, idDecode_idEncode m, canRecv_canSendFrame stale m⟩
  · intro id hid m0
    have henc := idEncode_idDecode m0 hid
    refine ⟨henc, fun stale => by rw [hsend, henc], ?_, dst_window m0 id, src_window m0 id,
      fun a => dstFilter_accepts m0 a id, fun a => srcFilter_accepts m0 a id,
      fun a b => peerFilter_accepts m0 a b id⟩
    intro fr hflag hmask hdlc
    have hdata : (Payload.ofList (fr.data.toList.take fr.canDlc.toNat)).bytes =
        fr.data.toList.take fr.canDlc.toNat := by
      rw [Payload.ofList_bytes, List.take_of_length_le]
      exact Nat.le_trans (List.length_take_le _ _) (UInt8.le_iff_toNat_le.mp hdlc)
    have hrecv := canRecv_eff m0 hflag hdlc
    rw [hmask] at hrecv
    exact ⟨_, hrecv, rfl, hdata, henc, fun stale => by rw [hsend]; exact henc⟩

end Bramble
