import Motion.Main
import Motion.Proofs.Geometry.Box
import Motion.Proofs.Geometry.Hull
import Motion.Proofs.Number.Hypotenuse
import Motion.Proofs.Number.Products
import Motion.Proofs.Number.Quotients
import Motion.Proofs.Program.Carried
import Motion.Proofs.Program.Chunks
import Motion.Proofs.Program.Edits
import Motion.Proofs.Program.Accounting
import Motion.Proofs.Program.Files
import Motion.Proofs.Program.Modal
import Motion.Proofs.Program.Spelling
import Motion.Proofs.Program.Streaming
import Motion.Proofs.Program.Stripping
import Motion.Proofs.Program.Strokes
import Motion.Proofs.Program.Unreadable
import Motion.Proofs.Program.WordByWord
import Motion.Proofs.Toolpath.Chords
import Motion.Proofs.Toolpath.Coincident
import Motion.Proofs.Toolpath.Detail
import Motion.Proofs.Toolpath.Direction
import Motion.Proofs.Toolpath.Extent
import Motion.Proofs.Toolpath.Groups
import Motion.Proofs.Toolpath.Growth
import Motion.Proofs.Toolpath.History
import Motion.Proofs.Toolpath.Joins
import Motion.Proofs.Toolpath.Overflow
import Motion.Proofs.Toolpath.Playback
import Motion.Proofs.Toolpath.Points
import Motion.Proofs.Toolpath.Steps
import Motion.Proofs.Toolpath.Travel
import Motion.Proofs.Program.Comments
import Motion.Proofs.CommandLine.Grammar
import Motion.Proofs.CommandLine.Outcome
import Motion.Proofs.Text.Digits
import Motion.Proofs.Text.Encoding
import Motion.Proofs.Json.RoundTrip
import Motion.Proofs.Toml.Strings
import Motion.Proofs.Toml.Lines
import Motion.Proofs.Settings.Partial
import Motion.Proofs.Settings.Refusals
import Motion.Proofs.Settings.Recent
