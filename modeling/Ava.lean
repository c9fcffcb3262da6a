import Ava.Endpoint.Freshness
import Ava.Endpoint.PoolBijection
import Ava.Endpoint.Expunge
import Ava.Migration.SameCalls
import Ava.Migration.Worker
import Ava.Migration.SelfContained
import Ava.Generator.Marshal
import Ava.Generator.CallRecord
import Ava.Channel.LogFile
import Ava.Channel.LogStore
import Ava.Channel.LogBuild
import Ava.Channel.LogLoadsBack
import Ava.Channel.SocketStream
import Ava.Channel.Senders
import Ava.Channel.SharedMemory
import Ava.Channel.ShmTransfer
import Ava.Endpoint.CallLife
import Ava.Endpoint.CallReplies
import Ava.Generator.Output
import Ava.Generator.DataRegion
import Ava.Generator.Expr
import Ava.Generator.ExprMeaning
import Ava.Channel.ParamBlock
import Ava.Endpoint.ShadowIndexes
import Ava.Endpoint.CoupledBuffers
import Ava.Endpoint.ShadowGrowth
import Ava.Threads.ThreadOrder
import Ava.Threads.ThreadExit
import Ava.Channel.BatchOrder
import Ava.Manager.Conservation
import Ava.Manager.RequestRun
import Ava.Manager.Placement
import Ava.Manager.RestoredOrder
import Ava.Manager.Quiescence
import Ava.Manager.WorkerPool
import Ava.Worker.Provision
import Ava.Dump.KernelIds
import Ava.Dump.Concatenation
import Ava.Channel.ZeroCopy
import Ava.Driver.SharedMemoryRequests
import Ava.Migration.CommandFrees
import Ava.Channel.BatchTimeout
import Ava.Cuda.DevicePointers
import Ava.Endpoint.ManagedBuffers
import Ava.Generator.PlainTerms
import Ava.Generator.AnnotationMeaning
import Ava.Endpoint.AtomicIds
import Ava.Cuda.DescriptorPools
import Ava.Migration.HandleReplay
