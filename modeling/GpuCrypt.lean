import GpuCrypt.Lib.BigEndian
import GpuCrypt.Lib.LittleEndian
import GpuCrypt.Lib.BlockBuffer
import GpuCrypt.Lib.Keystream
import GpuCrypt.Lib.Compute
import GpuCrypt.Lib.Gf256
import GpuCrypt.Lib.SyncObjects
import GpuCrypt.Lib.SharedDevice
import GpuCrypt.Lib.Isolation
import GpuCrypt.Lib.DevicePairs
import GpuCrypt.Lib.SharedQueue
import GpuCrypt.Lib.Handles
import GpuCrypt.Lib.RingLog
import GpuCrypt.Lib.LazyCell
import GpuCrypt.Spec.Fips197
import GpuCrypt.Spec.Rfc8439
import GpuCrypt.Model.Backend
import GpuCrypt.Model.Ciphers
import GpuCrypt.Model.BufferWrites
import GpuCrypt.Model.Session
import GpuCrypt.Model.InPlace
import GpuCrypt.Model.Aes256Export
import GpuCrypt.Model.Vulkan
import GpuCrypt.Model.Aes256Shader
import GpuCrypt.Model.ChachaShader
import GpuCrypt.Model.Batchers
import GpuCrypt.Model.BatcherRuns
import GpuCrypt.Model.SharedBatchers
import GpuCrypt.Model.Provider
import GpuCrypt.Model.Startup
import GpuCrypt.Model.Lifecycle
import GpuCrypt.Proofs.Buffering
import GpuCrypt.Proofs.Counter
import GpuCrypt.Proofs.StreamLaw
import GpuCrypt.Proofs.CipherStreams
import GpuCrypt.Proofs.UpdateOutcomes
import GpuCrypt.Proofs.Atomicity
import GpuCrypt.Proofs.OutputBound
import GpuCrypt.Proofs.Finals
import GpuCrypt.Proofs.KeyGuard
import GpuCrypt.Proofs.StreamRefinement
import GpuCrypt.Proofs.FinalRetry
import GpuCrypt.Proofs.Reinit
import GpuCrypt.Proofs.StreamEnds
import GpuCrypt.Proofs.BufferBounds
import GpuCrypt.Proofs.InPlace
import GpuCrypt.Proofs.ExportStream
import GpuCrypt.Proofs.ExportInit
import GpuCrypt.Proofs.AesBlock
import GpuCrypt.Proofs.AesJob
import GpuCrypt.Proofs.ChachaJob
import GpuCrypt.Proofs.BlockCounters
import GpuCrypt.Proofs.EndToEnd
import GpuCrypt.Proofs.BatcherSteps
import GpuCrypt.Proofs.UpdateLengths
import GpuCrypt.Proofs.PartialBlocks
import GpuCrypt.Proofs.JobIsolation
import GpuCrypt.Proofs.RingWindow
import GpuCrypt.Proofs.SharedBackend
import GpuCrypt.Proofs.Interleavings
import GpuCrypt.Proofs.JobOutcome
import GpuCrypt.Proofs.Fences
import GpuCrypt.Proofs.StatelessBackend
import GpuCrypt.Proofs.ContextIsolation
import GpuCrypt.Proofs.JobChains
import GpuCrypt.Proofs.FailureStreams
import GpuCrypt.Proofs.AesCounters
import GpuCrypt.Proofs.RoundTrips
import GpuCrypt.Proofs.Threads
import GpuCrypt.Proofs.Lifecycle
import GpuCrypt.Proofs.RingContents
import GpuCrypt.Proofs.ExportProcess
import GpuCrypt.Proofs.Startup
