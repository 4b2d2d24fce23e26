import Rocr.Lib.Ordered
import Rocr.Lib.OrdMap
import Rocr.Lib.MultiMap
import Rocr.Lib.Chain
import Rocr.Util.SimpleHeap
import Rocr.Util.SmallHeap
import Rocr.Util.SmallHeapWf
import Rocr.Util.SmallHeapAlloc
import Rocr.Util.SmallHeapFree
import Rocr.Util.SmallHeapRun
import Rocr.Kmt.Aperture
import Rocr.Kmt.Userptr
import Rocr.Runtime.InterceptQueue
import Rocr.Lib.Word
import Rocr.Runtime.CopyRect
import Rocr.Runtime.VMemory
import Rocr.Runtime.ScratchCache
import Rocr.Runtime.SvmPrefetch
import Rocr.Loader.Executable
import Rocr.Runtime.AieQueue
import Rocr.Util.Flag
import Rocr.Code.ElfNote
import Rocr.Runtime.BlitKernel
import Rocr.Runtime.VMemoryAccess
import Rocr.Runtime.BlitSdma
import Rocr.Runtime.BlitSdmaRing
import Rocr.Runtime.CuMask
import Rocr.Runtime.XdnaDriver
import Rocr.Kmt.PerfCtr
import Rocr.Code.HsaCodeNotes
import Rocr.Runtime.IpcHandle
import Rocr.Kmt.MapNodes
import Rocr.Lib.SearchTree
import Rocr.Kmt.VmTree
import Rocr.Lib.Bytes
import Rocr.Runtime.PcSampling
import Rocr.Kmt.MappedArray
import Rocr.Lib.FairRun
import Rocr.Util.HybridMutex
import Rocr.Kmt.QueueCuMask
import Rocr.Runtime.ReleaseNotifier
import Rocr.Kmt.Topology
import Rocr.Kmt.TopologyLinks
import Rocr.Lib.Intervals
import Rocr.Lib.Ranges
import Rocr.Kmt.ApertureRun
import Rocr.Runtime.ScratchCacheRun
import Rocr.Util.SimpleHeapRun
import Rocr.Util.SimpleHeapFree
