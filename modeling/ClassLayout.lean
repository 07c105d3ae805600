import ClassLayout.Analysis
import ClassLayout.CallGraph.Json
import ClassLayout.FileTree
import ClassLayout.Json.Defect
import ClassLayout.Proofs.Search
import ClassLayout.Proofs.Tables
import ClassLayout.Proofs.Views
import ClassLayout.Settings.Json
import ClassLayout.Settings.Lookup
import ClassLayout.Proofs.Analysis
import ClassLayout.Proofs.Numbering
import ClassLayout.Proofs.Sites
import ClassLayout.Proofs.Listing
import ClassLayout.Proofs.FloatRange
import ClassLayout.Proofs.Numerals
import ClassLayout.Proofs.JsonText
import ClassLayout.Proofs.Records
import ClassLayout.Proofs.Declaration
import ClassLayout.Proofs.RoundTrip
import ClassLayout.Proofs.Candidates
import ClassLayout.Proofs.Nesting
import ClassLayout.Proofs.BreadthFirst
import ClassLayout.Proofs.Blocks
import ClassLayout.Proofs.Metrics
import ClassLayout.Proofs.Moves
import ClassLayout.Proofs.Gathering
import ClassLayout.Proofs.Callers
import ClassLayout.Proofs.Advice
import ClassLayout.Proofs.Cohesion
import ClassLayout.Proofs.RelativeOrder
import ClassLayout.Proofs.Edges
import ClassLayout.Proofs.Isolation
import ClassLayout.Proofs.LineShifts
import ClassLayout.Proofs.DistantCalls
import ClassLayout.Proofs.Screens
import ClassLayout.Proofs.Postorder
import ClassLayout.Proofs.Accessor
import ClassLayout.Proofs.Groups
import ClassLayout.Proofs.Words
import ClassLayout.Proofs.TypeText
import ClassLayout.Proofs.Signature
import ClassLayout.Proofs.ShownType
import ClassLayout.Proofs.Lookup
import ClassLayout.Proofs.Chronicle
