import Flipbook.Animation.Easing
import Flipbook.Animation.FramePolicy
import Flipbook.Animation.Ramp
import Flipbook.Animation.Timeline
import Flipbook.Error
import Flipbook.Geometry.CoordinateStack
import Flipbook.Geometry.Matrix
import Flipbook.Geometry.Mesh
import Flipbook.Geometry.Vector
import Flipbook.Lighting
import Flipbook.Log
import Flipbook.Main
import Flipbook.NameMap
import Flipbook.Number.Binary
import Flipbook.Number.Decimal
import Flipbook.Number.Scalar
import Flipbook.Options
import Flipbook.Raster.Drawing
import Flipbook.Raster.Fill
import Flipbook.Raster.Fragment
import Flipbook.Raster.Line
import Flipbook.Raster.Picture
import Flipbook.Raster.Segment
import Flipbook.Replay.Event
import Flipbook.Replay.Frame
import Flipbook.Replay.Run
import Flipbook.Script.Command
import Flipbook.Script.Lexeme
import Flipbook.Script.Outline
import Flipbook.Script.Pattern
import Flipbook.Script.Scene
import Flipbook.Script.Statement
import Flipbook.Script.Token
import Flipbook.Studio.Basic
import Flipbook.Studio.Encoding
import Flipbook.Studio.Encoding.Bitmap
import Flipbook.Studio.Encoding.Gif
import Flipbook.Studio.Encoding.Png
import Flipbook.Studio.Encoding.Word
import Flipbook.Studio.FileTree
import Flipbook.Studio.Image
import Flipbook.Studio.Library
import Flipbook.Studio.Path
import Flipbook.Symbols
import Flipbook.Text.CharClass
import Flipbook.Text.Lines
import Flipbook.Trace
import Flipbook.Proofs.Frame.Points
import Flipbook.Proofs.Timeline.Running
import Flipbook.Proofs.Frame.Knobs
import Flipbook.Proofs.InOrder
import Flipbook.Proofs.Timeline.Cells
import Flipbook.Proofs.Timeline.LastWriter
import Flipbook.Proofs.Scene.Bindings
import Flipbook.Proofs.Run.Failure
import Flipbook.Proofs.Frame.Definitions
import Flipbook.Proofs.Run.Definitions
import Flipbook.Proofs.Run.Knobs
import Flipbook.Proofs.Frame.Scopes
import Flipbook.Proofs.Script.Rows
import Flipbook.Proofs.Script.Arguments
import Flipbook.Proofs.Script.Segments
import Flipbook.Proofs.Script.Concatenation
import Flipbook.Proofs.Script.Comments
import Flipbook.Proofs.Scene.Grammar
import Flipbook.Proofs.Scene.Concatenation
import Flipbook.Proofs.Scene.Table
import Flipbook.Proofs.Scene.Lights
import Flipbook.Proofs.Script.Names
import Flipbook.Proofs.Run.Policy
import Flipbook.Proofs.Run.Calls
import Flipbook.Proofs.Frame.Calls
import Flipbook.Proofs.Run.Protocol
import Flipbook.Proofs.Number.Order
import Flipbook.Proofs.Raster.Front
import Flipbook.Proofs.Raster.Stepping
import Flipbook.Proofs.Raster.Wrapping
import Flipbook.Proofs.Number.Exact
import Flipbook.Proofs.Number.Real
import Flipbook.Proofs.Number.Rounding
import Flipbook.Proofs.Number.Operations
import Flipbook.Proofs.Number.Packing
import Flipbook.Proofs.Number.Comparing
import Flipbook.Proofs.Number.Binary32
import Flipbook.Proofs.Number.Binary64
import Flipbook.Proofs.Number.Truncation
import Flipbook.Proofs.Number.Infinite
import Flipbook.Proofs.Geometry.Vector
import Flipbook.Proofs.Geometry.Matrix
import Flipbook.Proofs.Geometry.Nesting
import Flipbook.Proofs.Geometry.Solid
import Flipbook.Proofs.Animation.Easing
import Flipbook.Proofs.Animation.Ramp
import Flipbook.Proofs.Animation.Ends
import Flipbook.Proofs.Lighting.Behind
import Flipbook.Proofs.Raster.Clipping
import Flipbook.Proofs.Raster.Filling
import Flipbook.Proofs.Raster.Listing
import Flipbook.Proofs.Raster.Gradient
import Flipbook.Proofs.Raster.Bounds
import Flipbook.Proofs.Raster.Interpolation
import Flipbook.Proofs.Run.Pictures
import Flipbook.Proofs.Script.Writing
import Flipbook.Proofs.Script.Numerals
import Flipbook.Proofs.Run.Interleaving
import Flipbook.Proofs.Studio.Files
import Flipbook.Proofs.Studio.Png
import Flipbook.Proofs.Studio.Library
import Flipbook.Proofs.Studio.Assembling
import Flipbook.Proofs.Studio.Names
import Flipbook.Proofs.Studio.Keeping
import Flipbook.Proofs.Run.Animation
import Flipbook.Proofs.Run.Depths
