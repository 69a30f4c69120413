import HueSaturation.Main
import HueSaturation.Proofs.Raster.Pixels
import HueSaturation.Proofs.Raster.Rows
import HueSaturation.Proofs.Raster.Regions
import HueSaturation.Proofs.Raster.Tiles
import HueSaturation.Proofs.Raster.Grid
import HueSaturation.Proofs.Raster.Stitching
import HueSaturation.Proofs.Raster.Chunks
import HueSaturation.Proofs.Raster.Buffer
import HueSaturation.Proofs.Blend.Local
import HueSaturation.Proofs.Blend.Paths
import HueSaturation.Proofs.Blend.Range
import HueSaturation.Proofs.Edit.Tiled
import HueSaturation.Proofs.Number.Nearest
import HueSaturation.Proofs.Number.Value
import HueSaturation.Proofs.Number.Rounding
import HueSaturation.Proofs.Number.Whole
import HueSaturation.Proofs.Number.Same
import HueSaturation.Proofs.Number.Between
import HueSaturation.Proofs.Number.Root
import HueSaturation.Proofs.Number.Exact
import HueSaturation.Proofs.Color.Effects
import HueSaturation.Proofs.Color.Gamut
import HueSaturation.Proofs.Stage.Zeros
import HueSaturation.Proofs.Stage.OneTurn
import HueSaturation.Proofs.Stage.KeptLuma
import HueSaturation.Proofs.Control.Values
import HueSaturation.Proofs.Control.Word
import HueSaturation.Proofs.Control.Calls
import HueSaturation.Proofs.Control.Readers
import HueSaturation.Proofs.Control.Order
import HueSaturation.Proofs.Control.Told
import HueSaturation.Proofs.Control.Batch
import HueSaturation.Proofs.Control.Nearest
import HueSaturation.Proofs.Edit.Kept
import HueSaturation.Proofs.Edit.Refused
import HueSaturation.Proofs.Edit.Replay
import HueSaturation.Proofs.Edit.Unskipped
import HueSaturation.Proofs.Edit.Valid
import HueSaturation.Proofs.Edit.AtRest
import HueSaturation.Proofs.Png.Lossless
import HueSaturation.Proofs.Png.Interleaved
import HueSaturation.Proofs.Png.Written
import HueSaturation.Proofs.Command.Given
import HueSaturation.Proofs.Command.Unchanged
import HueSaturation.Proofs.Command.KeptAlpha
import HueSaturation.Proofs.Color.Affine
import HueSaturation.Proofs.Color.Curves
import HueSaturation.Proofs.Edit.ToneCurve
import HueSaturation.Proofs.Stage.AlongLuma
import HueSaturation.Proofs.Stage.Proportion
