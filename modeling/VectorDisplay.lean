import VectorDisplay.Main
import VectorDisplay.Render
import VectorDisplay.Proofs.Buffer
import VectorDisplay.Proofs.Drawing.Laying
import VectorDisplay.Proofs.Drawing.Emission
import VectorDisplay.Proofs.Drawing.Path
import VectorDisplay.Proofs.Drawing.Counts
import VectorDisplay.Proofs.Drawing.Filling
import VectorDisplay.Proofs.Sweep
import VectorDisplay.Proofs.Sweep.Sharing
import VectorDisplay.Proofs.Sweep.Serpentine
import VectorDisplay.Proofs.Sweep.Sampling
import VectorDisplay.Proofs.Folder
import VectorDisplay.Proofs.Render
import VectorDisplay.Proofs.Storage
import VectorDisplay.Proofs.Showing
import VectorDisplay.Proofs.Showing.Passes
import VectorDisplay.Proofs.Sinks
import VectorDisplay.Proofs.Session
import VectorDisplay.Proofs.Double.Rounding
import VectorDisplay.Proofs.Double.Packing
import VectorDisplay.Proofs.Double.Arithmetic
import VectorDisplay.Proofs.Double.Order
import VectorDisplay.Proofs.Double.Value
import VectorDisplay.Proofs.Drawing.Granting
import VectorDisplay.Proofs.Grid
import VectorDisplay.Proofs.Contour.Order
import VectorDisplay.Proofs.Contour.Strength
import VectorDisplay.Proofs.Contour.Edges
import VectorDisplay.Proofs.Contour.Border
import VectorDisplay.Proofs.Drawing.Travel
import VectorDisplay.Proofs.Validity
import VectorDisplay.Proofs.Drawing.Exact
import VectorDisplay.Proofs.Drawing.Returning
import VectorDisplay.Proofs.Double.Error
import VectorDisplay.Proofs.Double.Root
import VectorDisplay.Proofs.Drawing.Drift
import VectorDisplay.Proofs.Drawing.Wholeness
import VectorDisplay.Proofs.Contour.Greedy
import VectorDisplay.Proofs.Contour.TourLength
import VectorDisplay.Proofs.Drawing.Accounting
import VectorDisplay.Proofs.Drawing.Dithering
import VectorDisplay.Proofs.Picture
import VectorDisplay.Proofs.Picture.Layout
import VectorDisplay.Proofs.Pool
import VectorDisplay.Proofs.Handoff
import VectorDisplay.Proofs.Sinks.Bookkeeping
import VectorDisplay.Proofs.Session.Stopping
import VectorDisplay.Proofs.Report
import VectorDisplay.Proofs.Sinks.Courses
import VectorDisplay.Proofs.Sinks.Following
import VectorDisplay.Proofs.Session.Accounting
import VectorDisplay.Proofs.Session.Agreement
import VectorDisplay.Proofs.Sweep.Crossing
import VectorDisplay.Proofs.Drawing.Averaging
import VectorDisplay.Proofs.Contour.Tracing
import VectorDisplay.Proofs.Budget
import VectorDisplay.Proofs.Generator
import VectorDisplay.Proofs.Processor
import VectorDisplay.Proofs.Pool.Refusal
import VectorDisplay.Proofs.Sinks.Separate
import VectorDisplay.Proofs.Sinks.Feeding
import VectorDisplay.Proofs.Sinks.FanOut
import VectorDisplay.Proofs.Session.Starting
import VectorDisplay.Proofs.Codec.Canonical
import VectorDisplay.Proofs.Buffer.Requests
import VectorDisplay.Proofs.Projection.Accuracy
import VectorDisplay.Proofs.CommandLine.Values
