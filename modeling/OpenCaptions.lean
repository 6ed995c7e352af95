import OpenCaptions.Engine.Canned
import OpenCaptions.Engine.Scripted
import OpenCaptions.Expr.Eval
import OpenCaptions.Main
import OpenCaptions.Proofs.Caption.Curves
import OpenCaptions.Proofs.Caption.Saving
import OpenCaptions.Proofs.Expr.Language
import OpenCaptions.Proofs.Expr.Meaning
import OpenCaptions.Proofs.Filter.Printing
import OpenCaptions.Proofs.Filter.Accepting
import OpenCaptions.Proofs.Filter.Attribution
import OpenCaptions.Proofs.Filter.Composition
import OpenCaptions.Proofs.Filter.Completing
import OpenCaptions.Proofs.Filter.Fonts
import OpenCaptions.Proofs.Filter.Framing
import OpenCaptions.Proofs.Filter.Joining
import OpenCaptions.Proofs.Filter.Linking
import OpenCaptions.Proofs.Filter.Offsets
import OpenCaptions.Proofs.Filter.Positions
import OpenCaptions.Proofs.Filter.Previewing
import OpenCaptions.Proofs.Filter.Settling
import OpenCaptions.Proofs.Preset.Failing
import OpenCaptions.Proofs.Preset.Surviving
import OpenCaptions.Proofs.Render.DryRuns
import OpenCaptions.Proofs.Render.Cancelling
import OpenCaptions.Proofs.Render.Isolation
import OpenCaptions.Proofs.Render.Diagnosing
import OpenCaptions.Proofs.Render.Reporting
import OpenCaptions.Proofs.Subtitle.Exporting
import OpenCaptions.Proofs.Filter.Escaping
import OpenCaptions.Proofs.Subtitle.Words
import OpenCaptions.Proofs.Engine.Buffering
import OpenCaptions.Proofs.Subtitle.Locality
