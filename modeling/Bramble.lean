import Bramble.Firmware.RxTask
import Bramble.Session.Timers
import Bramble.Session.Pairing
import Bramble.Firmware.Numbering
import Bramble.Firmware.Peer
import Bramble.Canobj.Agreement
import Bramble.Firmware.Canbus
import Bramble.Firmware.Rtc
import Bramble.Firmware.I2c
import Bramble.Firmware.Transaction
import Bramble.CanId
import Bramble.Session.Replies
import Bramble.Firmware.TxQueue
import Bramble.Firmware.Matrix
import Bramble.Firmware.Power
import Bramble.Firmware.PowerRuns
import Bramble.Firmware.WritePhase
import Bramble.Firmware.ReadPhase
import Bramble.Firmware.Nvram
import Bramble.Helper.Stdin
import Bramble.Session.Stdin
import Bramble.Firmware.Arbitration
import Bramble.Firmware.Requests
import Bramble.Firmware.Overrun
import Bramble.Canobj.Deadline
import Bramble.Firmware.Button
import Bramble.Firmware.ClockRuns
import Bramble.Cmd.Slot
import Bramble.Filters
import Bramble.Firmware.FrameBuffer
import Bramble.Cmd.UsageBargraph
import Bramble.Cmd.Canping
import Bramble.Cmd.Powerman
import Bramble.Cmd.Cansnoop
import Bramble.Firmware.RxRing
import Bramble.Session.Progress
import Bramble.Firmware.CanRx
import Bramble.Firmware.TxDrain
import Bramble.Session.StdinProgress
import Bramble.Cmd.Shutdown
import Bramble.Rtos.Tick
import Bramble.Firmware.Display
import Bramble.Rtos.Heap
