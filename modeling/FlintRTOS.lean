import FlintRTOS.CursorRing
import FlintRTOS.RingWait
import FlintRTOS.CircularBuffer
import FlintRTOS.Machine
import FlintRTOS.KernelList
import FlintRTOS.RoundRobin
import FlintRTOS.Tasks
import FlintRTOS.TasksSpec
import FlintRTOS.SchedInvariant
import FlintRTOS.SchedTick
import FlintRTOS.SchedEffects
import FlintRTOS.Scheduler
import FlintRTOS.SchedSleep
import FlintRTOS.BoundedWaiting
import FlintRTOS.Queue
import FlintRTOS.QueueBuffer
import FlintRTOS.QueueEffects
import FlintRTOS.Kernel
import FlintRTOS.KernelInvariant
import FlintRTOS.KernelSchedule
import FlintRTOS.QueueHistory
import FlintRTOS.QueueRefinement
import FlintRTOS.Mutex
import FlintRTOS.PriorityInheritance
import FlintRTOS.QueueBlocking
import FlintRTOS.QueueDebt
import FlintRTOS.QueueTimeout
import FlintRTOS.SysArch
import FlintRTOS.Cap
import FlintRTOS.PrioBitmap
import FlintRTOS.SignedArith
import FlintRTOS.PtpClock
import FlintRTOS.PtpWire
import FlintRTOS.PtpTime
import FlintRTOS.BigEndian
import FlintRTOS.MsgTag
import FlintRTOS.PtpMsg
import FlintRTOS.PtpServo
import FlintRTOS.PtpCore
import FlintRTOS.PtpMaster
import FlintRTOS.PtpEffects
import FlintRTOS.History
import FlintRTOS.PtpPairing
import FlintRTOS.PtpStability
import FlintRTOS.PtpServoPlan
import FlintRTOS.PtpAnchor
import FlintRTOS.PtpServoRange
import FlintRTOS.SlidingWindow
import FlintRTOS.PtpDelay
import FlintRTOS.PtpUpkeep
import FlintRTOS.PtpUpkeepRuns
import FlintRTOS.PtpBounds
import FlintRTOS.Gregorian
import FlintRTOS.Numeral
import FlintRTOS.PtpUtc
import FlintRTOS.DigitRoot
import FlintRTOS.PtpSqrt
import FlintRTOS.LinkedChain
import FlintRTOS.Tiling
import FlintRTOS.Heap1
import FlintRTOS.Heap4
import FlintRTOS.Heap4FreeList
import FlintRTOS.Heap4Invariant
import FlintRTOS.Heap4Clients
import FlintRTOS.Heap4Exact
import FlintRTOS.Heap4DoubleFree
import FlintRTOS.TaskCreation
import FlintRTOS.QueueStorage
import FlintRTOS.Libc
import FlintRTOS.ListLinks
import FlintRTOS.ListCalls
import FlintRTOS.ListOrder
import FlintRTOS.WakeOrder
import FlintRTOS.QueuePreemption
import FlintRTOS.A64
import FlintRTOS.PortAsm
import FlintRTOS.PortContext
import FlintRTOS.Preemption
import FlintRTOS.CriticalSections
import FlintRTOS.MqttTransport
import FlintRTOS.MqttConnection
import FlintRTOS.MqttRing
import FlintRTOS.GenetTx
import FlintRTOS.GenetRx
import FlintRTOS.GenetStamp
import FlintRTOS.GenetCopy
import FlintRTOS.Json
import FlintRTOS.JsonWriter
import FlintRTOS.JsonTruncation
import FlintRTOS.DecimalText
import FlintRTOS.MqttApp
import FlintRTOS.MqttCommand
import FlintRTOS.MqttBackoff
import FlintRTOS.FrameStream
import FlintRTOS.MqttWire
import FlintRTOS.MqttPublish
import FlintRTOS.MqttReceive
import FlintRTOS.MqttStream
import FlintRTOS.MqttKeepAlive
