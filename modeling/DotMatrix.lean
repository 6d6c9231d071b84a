import DotMatrix.Octet
import DotMatrix.Page
import DotMatrix.Bitmap
import DotMatrix.Canvas
import DotMatrix.Token
import DotMatrix.Head
import DotMatrix.Raster
import DotMatrix.Word
import DotMatrix.Memory
import DotMatrix.Hexadecimal
import DotMatrix.Diagnostic
import DotMatrix.Utf8
import DotMatrix.Path
import DotMatrix.Image.Format
import DotMatrix.Failure
import DotMatrix.Log
import DotMatrix.Walk
import DotMatrix.Report
import DotMatrix.Scanner
import DotMatrix.Decode
import DotMatrix.Json
import DotMatrix.Report.Fault
import DotMatrix.Report.Json
import DotMatrix.ByteOrder
import DotMatrix.Checksum
import DotMatrix.Image.Lzw
import DotMatrix.Image.Deflate
import DotMatrix.Image.Gif
import DotMatrix.Image.Png
import DotMatrix.Image.File
import DotMatrix.FileAccess
import DotMatrix.Volume
import DotMatrix.Outcome
import DotMatrix.Capture
import DotMatrix.Render
import DotMatrix.Printout
import DotMatrix.ControlSequence
import DotMatrix.CommandLine.Arguments
import DotMatrix.CommandLine.Run
import DotMatrix.Main
import DotMatrix.Proofs.Ink
import DotMatrix.Proofs.Printer
import DotMatrix.Proofs.Reference
import DotMatrix.Proofs.Resumption
import DotMatrix.Proofs.Cutting
import DotMatrix.Proofs.Skipping
import DotMatrix.Proofs.Orders
import DotMatrix.Proofs.Plotting
import DotMatrix.Proofs.Clipping
import DotMatrix.Proofs.Rendering
import DotMatrix.Proofs.Endings
import DotMatrix.Proofs.Histories
import DotMatrix.Proofs.Captures
import DotMatrix.Proofs.Finality
import DotMatrix.Proofs.Fragments
import DotMatrix.Proofs.Clamping
import DotMatrix.Proofs.Movement
import DotMatrix.Proofs.Lowering
import DotMatrix.Proofs.Tiling
import DotMatrix.Proofs.Accounts
import DotMatrix.Proofs.Strokes
import DotMatrix.Proofs.Packing
import DotMatrix.Proofs.Sizes
import DotMatrix.Proofs.Delivery
import DotMatrix.Proofs.Characters
import DotMatrix.Proofs.Components
import DotMatrix.Proofs.Formats
import DotMatrix.Proofs.Targets
import DotMatrix.Proofs.Numerals
import DotMatrix.Proofs.Wording
import DotMatrix.Proofs.Lexemes
import DotMatrix.Proofs.Parsing
import DotMatrix.Proofs.Reports
import DotMatrix.Proofs.Logging
import DotMatrix.Proofs.Addressing
import DotMatrix.Proofs.Scanner
import DotMatrix.Proofs.Scanning
import DotMatrix.Proofs.Printouts
import DotMatrix.Proofs.Safety
