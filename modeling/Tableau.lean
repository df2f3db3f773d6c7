import Tableau.CommandLine.Execute
import Tableau.Main
import Tableau.Program.Outline
import Tableau.Proofs.CommandLine.Files
import Tableau.Proofs.CommandLine.Stages
import Tableau.Proofs.Document.Lossless
import Tableau.Proofs.Listing.Lines
import Tableau.Proofs.Listing.Outline
import Tableau.Proofs.Listing.Program
import Tableau.Proofs.Listing.Scene
import Tableau.Proofs.Listing.Tokens
import Tableau.Proofs.Painting.Blame
import Tableau.Proofs.Painting.Bounds
import Tableau.Proofs.Painting.ByName
import Tableau.Proofs.Painting.Check
import Tableau.Proofs.Painting.Describe
import Tableau.Proofs.Painting.Edits
import Tableau.Proofs.Painting.Explicit
import Tableau.Proofs.Painting.Independence
import Tableau.Proofs.Painting.LastWrite
import Tableau.Proofs.Painting.Lines
import Tableau.Proofs.Painting.Notation
import Tableau.Proofs.Painting.Numbers
import Tableau.Proofs.Painting.PaintOrder
import Tableau.Proofs.Painting.Placing
import Tableau.Proofs.Painting.Renaming
import Tableau.Proofs.Painting.ValueText
import Tableau.Proofs.Program.Continue
import Tableau.Proofs.Program.Grammar
import Tableau.Proofs.Program.Nodes
import Tableau.Proofs.Program.Printing
import Tableau.Proofs.Program.Reader
import Tableau.Proofs.Program.Respelling
import Tableau.Proofs.Program.Spans
import Tableau.Proofs.Program.Spelling
import Tableau.Proofs.Program.Steps
import Tableau.Proofs.Program.Stuck
import Tableau.Proofs.Program.Viable
import Tableau.Proofs.Source.Canonical
import Tableau.Proofs.Source.FaultLines
import Tableau.Proofs.Source.Incremental
import Tableau.Proofs.Source.Reachable
import Tableau.Proofs.Source.Session
import Tableau.Proofs.Token.Layout
import Tableau.Proofs.Token.LetterCase
import Tableau.Proofs.Token.Maximal
import Tableau.Proofs.Token.Order
import Tableau.Proofs.Token.Scan
import Tableau.Proofs.Token.Seam
import Tableau.Proofs.Token.Taken
import Tableau.Scene.Render
import Tableau.Source.RoundTrip
import Tableau.Source.Session
import Tableau.Token.Listing
