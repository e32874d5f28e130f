import Bramble.Firmware.Rtc
import Bramble.Lib.WriteBack

/-!
# The I2C follower (`i2c.c`)

The interrupt handler `i2c2_ev_isr` serves reads and writes of the 64 bytes of `nvram[]`. Regions
with callbacks are faulted in by `get` at their first access after each ADDR, and flushed by `put`
when the leader stops.

* `nvtab`                                                the regions;
* `nvramGet`, `nvramPut`, `cacheInvalidate`, `cacheFlush`  the accesses and the flags;
* `i2c2EvIsr`, `runIsr`                                  the handler, and what it does for a list of
                                                         interrupts;
* `Pointer.accesses`                                     the accesses to `nvram[]` that these make.
-/

namespace Bramble

/-! ## the regions -/

def nvramMatrixColumnsAddr : Nat := 0
def nvramMatrixColumnsSize : Nat := 5
def nvramMatrixCharAddr : Nat := 5
def nvramMatrixCharSize : Nat := 1
def nvramSlotAddr : Nat := 6
def nvramSlotSize : Nat := 1
def nvramVersionAddr : Nat := 7
def nvramVersionSize : Nat := 22
def nvramRtcOffset : Nat := 8
def nvramAddrMask : Nat := 0x3f

/-- what the callbacks read: the clock, the jumpers of `address_get`, and the version string -/
structure Env where
  rtc : RtcTime
  address : UInt8
  version : List UInt8

/-- the `put` callbacks -/
inductive Put where
  | ds1307PutFromIsr | matrixPutColumnsFromIsr | matrixPutCharFromIsr
  deriving DecidableEq

/-! the `get` callbacks, which fill a buffer -/

def ds1307GetBuf (env : Env) (buf : List UInt8) : List UInt8 :=
  if buf.length = 7 then ds1307GetFromIsr env.rtc else buf

def ds1307PlusCountGetFromIsr (env : Env) (buf : List UInt8) : List UInt8 :=
  if buf.length = 8 then ds1307GetFromIsr env.rtc ++ [env.rtc.setCount] else buf

def getZeroes (_ : Env) (buf : List UInt8) : List UInt8 := List.replicate buf.length 0

def addressGetFromIsr (env : Env) (buf : List UInt8) : List UInt8 :=
  if buf.length = 1 then [env.address] else buf

/-- `memset`, then `strncpy` of at most `size - 1` bytes -/
def versionGetFromIsr (env : Env) (buf : List UInt8) : List UInt8 :=
  let text := env.version.take (buf.length - 1)
  text ++ List.replicate (buf.length - text.length) 0

/-- the entries of `nvtab` -/
inductive Region where
  | ds1307 | reserved | matrixColumns | matrixChar | slot | version | debug
  deriving DecidableEq

namespace Region

def addr : Region → Nat
  | ds1307 => 0
  | reserved => 7
  | matrixColumns => nvramMatrixColumnsAddr + nvramRtcOffset
  | matrixChar => nvramMatrixCharAddr + nvramRtcOffset
  | slot => nvramSlotAddr + nvramRtcOffset
  | version => nvramVersionAddr + nvramRtcOffset
  | debug => 48

def size : Region → Nat
  | ds1307 => 7
  | reserved => 1
  | matrixColumns => nvramMatrixColumnsSize
  | matrixChar => nvramMatrixCharSize
  | slot => nvramSlotSize
  | version => nvramVersionSize
  | debug => 8

def put : Region → Option Put
  | ds1307 => some .ds1307PutFromIsr
  | matrixColumns => some .matrixPutColumnsFromIsr
  | matrixChar => some .matrixPutCharFromIsr
  | _ => none

def get : Region → Option (Env → List UInt8 → List UInt8)
  | ds1307 => some ds1307GetBuf
  | reserved => some getZeroes
  | matrixColumns => some getZeroes
  | matrixChar => some getZeroes
  | slot => some addressGetFromIsr
  | version => some versionGetFromIsr
  | debug => some ds1307PlusCountGetFromIsr

end Region

def nvtab : List Region :=
  [.ds1307, .reserved, .matrixColumns, .matrixChar, .slot, .version, .debug]

def findRegionContaining (addr : Nat) : Option Region :=
  nvtab.find? fun r => decide (r.addr ≤ addr ∧ addr < r.addr + r.size)

/-! ## the handler -/

/-- the variables of `i2c.c`, with the static ones of `i2c2_ev_isr` -/
structure I2c where
  nvram : Nat → UInt8
  valid : Region → Bool
  dirty : Region → Bool
  base : UInt8
  offset : UInt8
  writeCount : UInt8

/-- what the handler does to the outside: a byte for the leader, a call of a callback -/
inductive Output where
  | sendData (val : UInt8)
  | put (f : Put) (buf : List UInt8)
  deriving DecidableEq

/-- `size` bytes from `addr` on -/
def slice (nvram : Nat → UInt8) (addr size : Nat) : List UInt8 :=
  (List.range size).map fun i => nvram (addr + i)

/-- the memory with a buffer stored at `addr` -/
def store (nvram : Nat → UInt8) (addr : Nat) (buf : List UInt8) : Nat → UInt8 := fun a =>
  if addr ≤ a then buf.getD (a - addr) (nvram a) else nvram a

def cacheInvalidate (s : I2c) : I2c := { s with valid := fun _ => false }

/-- the loop of `cache_flush`, over the rest of the table -/
def cacheFlushFrom : List Region → I2c → I2c × List Output
  | [], s => (s, [])
  | r :: rs, s =>
    if s.dirty r then
      let calls := match r.put with
        | some f => [.put f (slice s.nvram r.addr r.size)]
        | none => []
      let (t, out) := cacheFlushFrom rs { s with dirty := Function.update s.dirty r false }
      (t, calls ++ out)
    else cacheFlushFrom rs s

def cacheFlush (s : I2c) : I2c × List Output := cacheFlushFrom nvtab s

/-- the first lines of `nvram_get` and `nvram_put` -/
def faultIn (env : Env) (addr : Nat) (s : I2c) : I2c :=
  match findRegionContaining addr with
  | none => s
  | some r =>
    if s.valid r then s
    else
      let nvram := match r.get with
        | some get => store s.nvram r.addr (get env (slice s.nvram r.addr r.size))
        | none => s.nvram
      { s with nvram := nvram, valid := Function.update s.valid r true }

def nvramAddr (base offset : UInt8) : Nat := (base.toNat + offset.toNat) &&& nvramAddrMask

def nvramGet (env : Env) (base offset : UInt8) (s : I2c) : I2c × UInt8 :=
  let addr := nvramAddr base offset
  let s := faultIn env addr s
  (s, s.nvram addr)

def nvramPut (env : Env) (base offset value : UInt8) (s : I2c) : I2c :=
  let addr := nvramAddr base offset
  let s := faultIn env addr s
  let s := { s with nvram := Function.update s.nvram addr value }
  match findRegionContaining addr with
  | none => s
  | some r => if r.put.isSome then { s with dirty := Function.update s.dirty r true } else s

/-- the bits of `I2C_SR1` that the handler tests -/
structure Sr1 where
  addr : Bool
  rxne : Bool
  txe : Bool
  btf : Bool
  stopf : Bool
  af : Bool

/-- an interrupt: the status and data registers, and what the callbacks would read now -/
structure Interrupt where
  sr1 : Sr1
  data : UInt8
  env : Env

/-- the branch of `i2c2_ev_isr` where the leader writes -/
def recvByte (env : Env) (val : UInt8) (s : I2c) : I2c :=
  let s :=
    if s.writeCount = 0 then { s with base := val, offset := 0 }
    else
      let t := nvramPut env s.base s.offset val s
      { t with offset := s.offset + 1 }
  { s with writeCount := s.writeCount + 1 }

/-- the branch where the leader reads -/
def xmitByte (env : Env) (s : I2c) : I2c × List Output :=
  let (t, val) := nvramGet env s.base s.offset s
  ({ t with offset := s.offset + 1 }, [.sendData val])

def i2c2EvIsr (s : I2c) (i : Interrupt) : I2c × List Output :=
  if i.sr1.addr then (cacheInvalidate { s with writeCount := 0 }, [])
  else if i.sr1.rxne then (recvByte i.env i.data s, [])
  else if i.sr1.txe && !i.sr1.btf then xmitByte i.env s
  else if i.sr1.stopf then cacheFlush s
  else if i.sr1.af then cacheFlush s
  else (s, [])

/-- the handler, once for each interrupt -/
def runIsr : I2c → List Interrupt → I2c × List Output
  | s, [] => (s, [])
  | s, i :: is =>
    let (t, out) := i2c2EvIsr s i
    let (u, out') := runIsr t is
    (u, out ++ out')

/-! ## the accesses of a list of interrupts -/

inductive Event where
  | addr
  | rxne (val : UInt8)
  | txe
  | stopf
  | af
  deriving DecidableEq

def Interrupt.event (i : Interrupt) : Option Event :=
  if i.sr1.addr then some .addr
  else if i.sr1.rxne then some (.rxne i.data)
  else if i.sr1.txe && !i.sr1.btf then some .txe
  else if i.sr1.stopf then some .stopf
  else if i.sr1.af then some .af
  else none

/-- the static variables of `i2c2_ev_isr` -/
structure Pointer where
  base : UInt8
  offset : UInt8
  writeCount : UInt8
  deriving DecidableEq

def I2c.pointer (s : I2c) : Pointer := ⟨s.base, s.offset, s.writeCount⟩

namespace Pointer

def next (p : Pointer) : Event → Pointer
  | .addr => ⟨p.base, p.offset, 0⟩
  | .rxne val =>
    if p.writeCount = 0 then ⟨val, 0, p.writeCount + 1⟩
    else ⟨p.base, p.offset + 1, p.writeCount + 1⟩
  | .txe => ⟨p.base, p.offset + 1, p.writeCount⟩
  | .stopf => p
  | .af => p

/-- the access to `nvram[]`; the first byte of a phase sets the base and makes none -/
def access (p : Pointer) : Event → Option (Access Nat UInt8)
  | .rxne val => if p.writeCount = 0 then none else some (.write (nvramAddr p.base p.offset) val)
  | .txe => some (.read (nvramAddr p.base p.offset))
  | _ => none

def after : Pointer → List Event → Pointer
  | p, [] => p
  | p, e :: es => (p.next e).after es

def eventAccesses : Pointer → List Event → List (Access Nat UInt8)
  | _, [] => []
  | p, e :: es => (p.access e).toList ++ (p.next e).eventAccesses es

end Pointer

/-- what `get` stores at an address -/
def supply (env : Env) (a : Nat) : UInt8 :=
  match findRegionContaining a with
  | none => 0
  | some r =>
    match r.get with
    | none => 0
    | some get => (get env (List.replicate r.size 0)).getD (a - r.addr) 0

/-- the accesses of a list of interrupts, with what `get` would store at that moment -/
def Pointer.accesses : Pointer → List Interrupt → List (TimedAccess Nat UInt8)
  | _, [] => []
  | p, i :: is =>
    match i.event with
    | none => p.accesses is
    | some e => ((p.access e).toList.map fun x => (x, supply i.env)) ++ (p.next e).accesses is

end Bramble
