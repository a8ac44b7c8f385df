import Rns8.Lib.LabelledRun
import Rns8.Lib.CenteredResidue
import Rns8.Lib.LoopFold
import Rns8.Lib.RowMajor
import Rns8.Core.Types
import Rns8.Core.Residue
import Rns8.Core.Matrix
import Rns8.Plan.Validate
import Rns8.Plan.Schedule
import Rns8.Plan.Grid
import Rns8.Plan.Created
import Rns8.Plan.Contract
import Rns8.Plan.Admission
import Rns8.Lib.WriteOnce
import Rns8.Lib.Interleave
import Rns8.Lib.RelyGuarantee
import Rns8.Cpu.RowTeam
import Rns8.Cpu.RingGemm
import Rns8.Cpu.RingMachine
import Rns8.Cpu.RingTeam
import Rns8.Cpu.RingOverlap
import Rns8.Cpu.RingRaces
import Rns8.Cpu.GemmRns
import Rns8.Cpu.LoopOverlap
import Rns8.Lib.ByteLimbs
import Rns8.Cpu.Wrap64
import Rns8.Cpu.WrapOverlap
import Rns8.Cpu.Pack
import Rns8.Lib.ModulusLadder
import Rns8.Reconstruct.Crt
import Rns8.Api.Workspace
import Rns8.Hip.DeviceOp
import Rns8.Hip.U192
import Rns8.Hip.Garner
import Rns8.Hip.ExportCells
import Rns8.Api.Matrix
import Rns8.Api.Pack
import Rns8.Api.Gemm
import Rns8.Api.Export
import Rns8.Api.Sparse
import Rns8.Api.ExactLift
import Rns8.Lib.DotBound
import Rns8.Exact.Range
import Rns8.Api.CpuCalls
import Rns8.Api.CpuMatrices
import Rns8.Api.LiftedMatrices
import Rns8.Lib.TaskGroup
import Rns8.Hip.KBlocks
import Rns8.Hip.GroupedGemm
import Rns8.Api.Grouped
import Rns8.Lib.IndexArith
import Rns8.Hip.LaunchIndices
import Rns8.Hip.LaunchExact
import Rns8.Hip.ScheduleExact
import Rns8.Lib.StridedBuffer
import Rns8.Hip.ShapeChecks
import Rns8.Hip.HostCopies
import Rns8.Accel.PackIndices
import Rns8.Accel.PackExact
import Rns8.Api.FiniteMatrices
import Rns8.Results.AliasedOutput
import Rns8.Results.WrittenPlanes
import Rns8.Results.DeviceReconstruction
import Rns8.Results.GroupedOrder
import Rns8.Results.LaunchIndices
import Rns8.Api.Oneshot
import Rns8.Api.HostCalls
import Rns8.Results.HostFootprint
import Rns8.Results.GarnerInverse
import Rns8.Results.ExactBounds
import Rns8.Results.RingProduct
import Rns8.Results.ExportAtomicity
import Rns8.Api.PlanMetadata
import Rns8.Results.PlanAgreement
import Rns8.Results.FiniteChain
import Rns8.Lib.BumpArena
import Rns8.Api.WorkspaceArena
import Rns8.Api.SparseCodec
import Rns8.Api.SparsePack
import Rns8.Cpu.Renaming
import Rns8.Results.SparseBounds
import Rns8.Results.SparseBuiltins
import Rns8.Results.SparseDeviceCalls
import Rns8.Results.SparseDeviceFinite
import Rns8.Results.SparseAgreement
import Rns8.Results.WorkspaceLayout
import Rns8.Lib.WordLimbs
import Rns8.Reconstruct.Limbs
import Rns8.Results.LimbExport
import Rns8.Lib.AxisCut
import Rns8.Hip.TileContract
import Rns8.Hip.TileContractExact
import Rns8.Results.TilePartition
import Rns8.Lib.ReciprocalDivision
import Rns8.Hip.Reducer
import Rns8.Hip.ResidueDot
import Rns8.Results.DeviceReducers
import Rns8.Lib.TreeReduction
import Rns8.Hip.VectorSums
import Rns8.Hip.VectorAlu
import Rns8.Hip.VectorRuns
import Rns8.Results.VectorDots
import Rns8.Lib.LaneLayout
import Rns8.Hip.MatrixOperands
import Rns8.Hip.MatrixKernels
import Rns8.Hip.MatrixExact
import Rns8.Hip.MatrixStores
import Rns8.Results.MatrixBuiltins
import Rns8.Lib.IndexedStores
import Rns8.Lib.DigitColumns
import Rns8.Cpu.WrapOracle
import Rns8.Lib.BlockLoop
import Rns8.Hip.WrapKernels
import Rns8.Hip.WrapExact
import Rns8.Hip.WrapStores
import Rns8.Hip.WrapWmma
import Rns8.Hip.WrapWmmaExact
import Rns8.Hip.PackKernels
import Rns8.Hip.PackStores
import Rns8.Results.DevicePack
import Rns8.Results.RunExactness
import Rns8.Api.AutoGemm
import Rns8.Api.ExactMatrices
import Rns8.Results.ExactRuns
import Rns8.Results.ExactExports
import Rns8.Results.AutoTransaction
import Rns8.Results.WrapAgreement
import Rns8.Results.WrapDevicePath
