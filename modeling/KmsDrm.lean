import KmsDrm.DrmMm.Placement
import KmsDrm.Vc4.Samples
import KmsDrm.Vc4.ShaderRec
import KmsDrm.I915.CmdParser.Safety
import KmsDrm.I915.CmdParser.Remembered
import KmsDrm.I915.SyncMap.Refine
import KmsDrm.I915.SwFence.CheckDag
import KmsDrm.I915.SwFence.Progress
import KmsDrm.DmaFence.Lifetime
import KmsDrm.DmaFence.Wait
import KmsDrm.Reservation.Snapshot
import KmsDrm.Reservation.Shared
import KmsDrm.Reservation.Wait
import KmsDrm.SyncFile.Merge
import KmsDrm.LinuxKpi.SimpleBuffer
import KmsDrm.DpMst.Sideband.Crc
import KmsDrm.DpMst.Sideband.Transmit
import KmsDrm.DpMst.Topology
import KmsDrm.DpMst.Payload.Compact
import KmsDrm.DpMst.Payload.References
import KmsDrm.Amdgpu.Vm.HugePages
import KmsDrm.Amdgpu.Vm.Fragments
import KmsDrm.Amdgpu.Vm.Runs
import KmsDrm.Amdgpu.Sa.Invariant
import KmsDrm.Sched.HwCount
import KmsDrm.Ttm.Exclusion
import KmsDrm.Vblank.Balance
import KmsDrm.Vmwgfx.Fifo
import KmsDrm.Vmwgfx.Walk
import KmsDrm.Lease.Revoke
import KmsDrm.Gem.PrimeCache
import KmsDrm.Hashtab.Table
import KmsDrm.VmaManager.Files
import KmsDrm.FixedPoint
import KmsDrm.Rect
