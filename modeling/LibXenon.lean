import LibXenon.Transition
import LibXenon.MutexSystem
import LibXenon.MutexTimeout
import LibXenon.ThreadSystem
import LibXenon.InterruptSystem
import LibXenon.Fairness
import LibXenon.ThreadStacks
import LibXenon.MboxSystem
import LibXenon.CondSystem
import LibXenon.SpinLockSystem
import LibXenon.DpcOrder
import LibXenon.DpcSystem
import LibXenon.IpiSystem
import LibXenon.IrqLevels
import LibXenon.XenosRing
import LibXenon.XenosResolve
import LibXenon.XenosTextures
import LibXenon.XenosLocks
import LibXenon.XenosVertexLists
import LibXenon.XenosVertexPool
import LibXenon.XenosVertexChunks
import LibXenon.XenosTriangles
import LibXenon.VfsNames
import LibXenon.VfsHandles
import LibXenon.Paths
import LibXenon.PathResolution
import LibXenon.WorkingDirectory
import LibXenon.HeapLock
import LibXenon.EnetTransmit
import LibXenon.EnetReceive
import LibXenon.UpdateXell
import LibXenon.Rawflash
import LibXenon.SfcxCode
import LibXenon.Keyvault
import LibXenon.Breakpoints
import LibXenon.GdbPacket
import LibXenon.GdbFrames
import LibXenon.GdbText
import LibXenon.GdbThreadIds
import LibXenon.GdbCommands
import LibXenon.ScheduleCore
import LibXenon.UserPages
import LibXenon.UserPageMap
import LibXenon.DebugHalt
import LibXenon.ExceptionHandlers
import LibXenon.Regions
import LibXenon.ElfLoader
import LibXenon.BootPath
import LibXenon.CacheLines
import LibXenon.ConsoleTiles
import LibXenon.TimeBase
import LibXenon.Dialogue
import LibXenon.AtaSectors
import LibXenon.AtaDma
import LibXenon.AtaAddress
import LibXenon.AtaCallbacks
