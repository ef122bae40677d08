import BlockVideo.Engine
import BlockVideo.MotionVector
import BlockVideo.Proofs.DeblockInPlace
import BlockVideo.Proofs.LookAhead
import BlockVideo.Proofs.OuterEdges
import BlockVideo.Proofs.PredictInPlace
import BlockVideo.Proofs.Superblocks
import BlockVideo.Proofs.Transpose
import BlockVideo.Proofs.WorkUnits
import BlockVideo.Synthetic
import BlockVideo.Proofs.UnusedEdges
import BlockVideo.Proofs.Parts
import BlockVideo.Proofs.Plane.Accessors
import BlockVideo.Proofs.SupportWindow
import BlockVideo.Proofs.Plane.Extension
import BlockVideo.Proofs.EmptyPlanes
import BlockVideo.Proofs.WriteBack
import BlockVideo.Proofs.FirstFlaw
import BlockVideo.Proofs.UsableGrids
import BlockVideo.Proofs.Mirror
import BlockVideo.Proofs.Destinations
import BlockVideo.Proofs.LowVariance
import BlockVideo.Proofs.Shortage
import BlockVideo.Proofs.ConstantLines
import BlockVideo.Proofs.LocallyConstant
import BlockVideo.Proofs.Sharpness
import BlockVideo.Proofs.Displacement
import BlockVideo.Proofs.VectorMean
import BlockVideo.Proofs.ShortLines
import BlockVideo.Proofs.EdgeEdits
import BlockVideo.Proofs.Bilinear
import BlockVideo.Proofs.SyntheticEdges
import BlockVideo.Proofs.Tiling
import BlockVideo.Proofs.Smoothing
