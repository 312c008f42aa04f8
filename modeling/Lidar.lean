import Lidar.Copy
import Lidar.Proofs.Header.Accepted
import Lidar.Proofs.Writer.ReadBack
import Lidar.Proofs.Writer.Layout
import Lidar.Proofs.Writer.Counts
import Lidar.Proofs.Copy
import Lidar.Proofs.Writer.Interrupted
import Lidar.Proofs.Writer.Batch
import Lidar.Proofs.Writer.Compressed
import Lidar.Proofs.Header.Grammar
import Lidar.Proofs.Header.Truncation
import Lidar.Proofs.Header.Rewriting
import Lidar.Proofs.Writer.Bounds
import Lidar.Proofs.Reader.Decompressed
import Lidar.Proofs.Header.Texts
import Lidar.Proofs.Binary64.Rounding
import Lidar.Proofs.Binary64.Packing
import Lidar.Proofs.Binary64.Arithmetic
import Lidar.Proofs.Transform
import Lidar.Proofs.Vlr.Limits
import Lidar.Proofs.Layouts
import Lidar.Proofs.Writer.Lifecycle
import Lidar.Proofs.Writer.Replacement
