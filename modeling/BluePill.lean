import BluePill.Lib.Overlay
import BluePill.Lib.Endian
import BluePill.Lib.Tiling
import BluePill.Lib.Runs
import BluePill.Lib.Fallible
import BluePill.Firmware.CircularBuffer
import BluePill.Firmware.DbgCommands
import BluePill.Firmware.Device
import BluePill.Firmware.Memory
import BluePill.Firmware.Commands
import BluePill.Firmware.DebugHandler
import BluePill.Firmware.PacketEffect
import BluePill.Firmware.Machine
import BluePill.Firmware.MonitorRules
import BluePill.Firmware.StepOver
import BluePill.Firmware.Replies
import BluePill.Firmware.HaltState
import BluePill.Firmware.CommandOrder
import BluePill.Firmware.WakeUp
import BluePill.Firmware.EraseLoop
import BluePill.Firmware.EraseDispatch
import BluePill.Firmware.EraseOrder
import BluePill.Lib.Transfer
import BluePill.Firmware.MemoryPackets
import BluePill.Firmware.RegisterPackets
import BluePill.Firmware.PacketBounds
import BluePill.Firmware.ReadAccess
import BluePill.Lib.WordMemory
import BluePill.Lib.ArmCore
import BluePill.Firmware.LoLevelDebug
import BluePill.Host.TargetSTM32F1
import BluePill.Host.FirmwareLink
import BluePill.Host.ReadBack
import BluePill.Host.TargetsInit
import BluePill.Host.MemorySplit
import BluePill.Host.TargetFlash
import BluePill.Host.FlashSector
import BluePill.Lib.Image
import BluePill.Host.FlashDownload
import BluePill.Firmware.ErasePages
import BluePill.Host.FlashErase
import BluePill.Host.GdbMain
import BluePill.Host.RegisterReplies
import BluePill.Host.GdbMemory
import BluePill.Host.GdbRegisters
import BluePill.Host.Exchanges
import BluePill.Host.GdbReads
import BluePill.Host.WriteAcks
import BluePill.Host.SectorStream
import BluePill.Firmware.ReplyEcho
import BluePill.Host.GdbWrites
import BluePill.Host.CallRuns
import BluePill.Host.LossyLink
import BluePill.Firmware.Breakpoints
import BluePill.Host.BreakpointLists
import BluePill.Host.Breakwatch
import BluePill.Host.GdbBreakpoints
import BluePill.Host.RegisterChunks
import BluePill.Firmware.RegisterBounds
import BluePill.Firmware.EraseBounds
import BluePill.Lib.RoundLoops
import BluePill.Host.LoopBodies
import BluePill.Host.LoopEnds
import BluePill.Host.ReceivedBytes
import BluePill.Firmware.EraseRange
import BluePill.Firmware.EraseRequests
import BluePill.Firmware.CopyCountdown
import BluePill.Firmware.FlashProgramming
import BluePill.Firmware.StartFirmware
import BluePill.Firmware.Syscalls
import BluePill.Lib.BoundedQueue
import BluePill.Firmware.QueueSteps
import BluePill.Firmware.NestedPuts
import BluePill.Lib.Crc
import BluePill.Host.Crc32
import BluePill.Host.Scan
import BluePill.Lib.Escapes
import BluePill.Host.GdbPacket
import BluePill.Host.RunControl
import BluePill.Host.CommandLine
import BluePill.Host.MemoryMap
import BluePill.Host.GdbServer
import BluePill.Lib.Latches
import BluePill.Host.GdbSession
import BluePill.Host.GdbWire
import BluePill.Host.GdbDocuments
import BluePill.Firmware.Halted
import BluePill.Host.LiveTarget
import BluePill.Host.StopReplies
